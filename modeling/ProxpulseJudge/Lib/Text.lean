import Mathlib.Data.List.DropRight
import Mathlib.Tactic.Common

/-! Text as a list of Unicode scalar values, with the standard string operations
used on separated header values: trimming, splitting, joining. Positions count
scalar values; byte offsets are never compared with them. -/
namespace Textual

abbrev Text := List Char

/- The Unicode `White_Space` property, which is what `trim` removes. -/
def isWhitespace (c : Char) : Bool :=
  let n := c.toNat
  (decide (9 ≤ n) && decide (n ≤ 13)) || n == 0x20 || n == 0x85 || n == 0xA0 || n == 0x1680 ||
    (decide (0x2000 ≤ n) && decide (n ≤ 0x200A)) || n == 0x2028 || n == 0x2029 ||
    n == 0x202F || n == 0x205F || n == 0x3000

def Blank (t : Text) : Prop := ∀ c ∈ t, isWhitespace c = true
instance (t : Text) : Decidable (Blank t) := List.decidableBAll (fun c => isWhitespace c = true) t

def trim (t : Text) : Text := (t.dropWhile isWhitespace).rdropWhile isWhitespace

theorem trimBlankPrefix {blank : Text} (h : Blank blank) (t : Text) : trim (blank ++ t) = trim t := by
  induction blank with
  | nil => rfl
  | cons c cs ih =>
    have head : isWhitespace c = true := h c (by simp)
    have rest : Blank cs := fun d hd => h d (List.mem_cons_of_mem _ hd)
    have step : trim (c :: (cs ++ t)) = trim (cs ++ t) := by
      simp only [trim,List.dropWhile_cons,head,if_true]
    exact step.trans (ih rest)

theorem trimOfEnds {t : Text} (first : ∀ c ∈ t.head?, isWhitespace c = false)
    (last : ∀ c ∈ t.getLast?, isWhitespace c = false) : trim t = t := by
  have left : t.dropWhile isWhitespace = t := by
    cases t with
    | nil => rfl
    | cons c cs => simp [first c (by simp)]
  unfold trim
  rw [left,List.rdropWhile_eq_self_iff]
  intro nonempty
  have := last (t.getLast nonempty) (List.getLast?_eq_getLast_of_ne_nil nonempty)
  simp [this]

theorem trimOfNoBlank {t : Text} (h : ∀ c ∈ t, isWhitespace c = false) : trim t = t :=
  trimOfEnds (fun c hc => h c (List.mem_of_head? hc)) (fun c hc => h c (List.mem_of_getLast? hc))

theorem trimSublist (t : Text) : (trim t).Sublist t :=
  ((List.rdropWhile_prefix _ _).sublist).trans (List.dropWhile_sublist _)

theorem trimHead {t : Text} {c : Char} (h : (trim t).head? = some c) : isWhitespace c = false := by
  obtain ⟨rest,split⟩ := List.rdropWhile_prefix isWhitespace (t.dropWhile isWhitespace)
  have first : (t.dropWhile isWhitespace).head? = some c := by
    rw [← split,List.head?_append]
    change ((trim t).head?).or _ = some c
    rw [h]
    rfl
  have clean := List.head?_dropWhile_not isWhitespace t
  rw [first] at clean
  simpa using clean

theorem trimLast {t : Text} {c : Char} (h : (trim t).getLast? = some c) : isWhitespace c = false := by
  have nonempty : trim t ≠ [] := by intro empty; simp [empty] at h
  have clean := List.rdropWhile_last_not isWhitespace (t.dropWhile isWhitespace) nonempty
  rw [List.getLast?_eq_getLast_of_ne_nil nonempty] at h
  cases Option.some.inj h
  exact Bool.eq_false_iff.mpr clean

@[simp] theorem trimIdempotent (t : Text) : trim (trim t) = trim t :=
  trimOfEnds (fun _ h => trimHead h) (fun _ h => trimLast h)

def fields (sep : Char) (t : Text) : List Text :=
  ((t.splitOn sep).map trim).filter (fun piece => !piece.isEmpty)

structure IsField (sep : Char) (piece : Text) : Prop where
  nonempty : piece ≠ []
  trimmed : trim piece = piece
  noSep : sep ∉ piece

instance (sep piece) : Decidable (IsField sep piece) :=
  decidable_of_iff (piece ≠ [] ∧ trim piece = piece ∧ sep ∉ piece)
    ⟨fun h => ⟨h.1,h.2.1,h.2.2⟩,fun h => ⟨h.nonempty,h.trimmed,h.noSep⟩⟩

theorem splitOnPMem {p : Char → Bool} {t piece : Text} (h : piece ∈ t.splitOnP p) :
    ∀ c ∈ piece, p c = false := by
  induction t generalizing piece with
  | nil => simp_all [List.splitOnP_nil]
  | cons c cs ih =>
    rw [List.splitOnP_cons_eq_if_modifyHead] at h
    split at h
    · rcases List.mem_cons.mp h with rfl | rest
      · simp
      · exact ih rest
    · rename_i kept
      cases tail : cs.splitOnP p with
      | nil => exact absurd tail (List.splitOnP_ne_nil _ _)
      | cons first others =>
        rw [tail] at h ih
        rcases List.mem_cons.mp h with rfl | rest
        · intro d hd
          rcases List.mem_cons.mp hd with rfl | inside
          · simpa using kept
          · exact ih (by simp) d inside
        · exact ih (List.mem_cons_of_mem _ rest)

theorem splitOnMem {sep : Char} {t piece : Text} (h : piece ∈ t.splitOn sep) : sep ∉ piece := by
  rw [List.splitOn_eq_splitOnP] at h
  exact fun inside => by simpa using splitOnPMem h sep inside

theorem fieldsMem {sep : Char} {t piece : Text} (h : piece ∈ fields sep t) : IsField sep piece := by
  obtain ⟨mem,kept⟩ := List.mem_filter.mp h
  obtain ⟨raw,inRaw,rfl⟩ := List.mem_map.mp mem
  refine ⟨by simpa using kept,trimIdempotent raw,?_⟩
  exact fun inside => splitOnMem inRaw ((trimSublist raw).mem inside)

theorem fieldsWhole {sep : Char} {piece : Text} (noSep : sep ∉ piece) :
    fields sep piece = if trim piece = [] then [] else [trim piece] := by
  have whole : piece.splitOn sep = [piece] := by
    rw [List.splitOn_eq_splitOnP]
    exact List.splitOnP_eq_singleton fun c hc => by
      simpa using fun e : c = sep => noSep (e ▸ hc)
  split <;> simp_all [fields]

theorem fieldsPiece {sep : Char} {piece : Text} (noSep : sep ∉ piece) (kept : trim piece ≠ []) :
    fields sep piece = [trim piece] := by
  rw [fieldsWhole noSep,if_neg kept]

theorem fieldsOfField {sep : Char} {piece : Text} (h : IsField sep piece) :
    fields sep piece = [piece] := by
  rw [fieldsPiece h.noSep (h.trimmed.symm ▸ h.nonempty),h.trimmed]

theorem fieldsAppend (sep : Char) (a b : Text) :
    fields sep (a ++ sep :: b) = fields sep a ++ fields sep b := by
  simp only [fields,List.splitOn_eq_splitOnP]
  rw [List.splitOnP_append_cons a b (by simp),List.map_append,List.filter_append]

theorem fieldsBlankPrefix {sep : Char} {blank : Text} (h : Blank blank) (noSep : sep ∉ blank)
    (t : Text) : fields sep (blank ++ t) = fields sep t := by
  obtain ⟨first,others,split⟩ := List.exists_cons_of_ne_nil
    (List.splitOnP_ne_nil (· == sep) t)
  -- The blanks end up in front of the first piece, where trimming removes them.
  have shifted : (blank ++ t).splitOnP (· == sep) = (blank ++ first) :: others := by
    clear h
    induction blank with
    | nil => exact split
    | cons c cs ih =>
      have apart : (c == sep) = false := by
        simpa using fun e : c = sep => noSep (by simp [e])
      have rest := ih (fun inside => noSep (List.mem_cons_of_mem _ inside))
      rw [List.cons_append,List.splitOnP_cons_eq_if_modifyHead,rest]
      simp [apart]
  simp only [fields,List.splitOn_eq_splitOnP,shifted,split,List.map_cons,trimBlankPrefix h]

def joinWith (glue : Text) (pieces : List Text) : Text := glue.intercalate pieces

theorem fieldsJoin {sep : Char} {blank : Text} (h : Blank blank) (noSep : sep ∉ blank)
    (pieces : List Text) :
    fields sep (joinWith (sep :: blank) pieces) = pieces.flatMap (fields sep) := by
  induction pieces with
  | nil => rfl
  | cons first rest ih =>
    cases rest with
    | nil => simp [joinWith]
    | cons second others =>
      have joined : joinWith (sep :: blank) (first :: second :: others) =
          first ++ sep :: (blank ++ joinWith (sep :: blank) (second :: others)) := by
        simp [joinWith,List.intercalate_cons_cons]
      rw [joined,fieldsAppend,fieldsBlankPrefix h noSep,ih]
      rfl

theorem fieldsJoinFields {sep : Char} {blank : Text} (h : Blank blank) (noSep : sep ∉ blank)
    {pieces : List Text} (valid : ∀ p ∈ pieces, IsField sep p) :
    fields sep (joinWith (sep :: blank) pieces) = pieces := by
  rw [fieldsJoin h noSep]
  clear h noSep
  induction pieces with
  | nil => rfl
  | cons p ps ih =>
    simp [fieldsOfField (valid p (by simp)),ih (fun q hq => valid q (List.mem_cons_of_mem _ hq))]

def splitOnce (sep : Char) : Text → Option (Text × Text)
  | [] => none
  | c :: cs =>
    if c = sep then some ([],cs) else (splitOnce sep cs).map (fun p => (c :: p.1,p.2))

def rsplitOnce (sep : Char) : Text → Option (Text × Text)
  | [] => none
  | c :: cs => match rsplitOnce sep cs with
    | some (before,after) => some (c :: before,after)
    | none => if c = sep then some ([],cs) else none

theorem rsplitOnceNone {sep : Char} {t : Text} : rsplitOnce sep t = none ↔ sep ∉ t := by
  induction t with
  | nil => simp [rsplitOnce]
  | cons c cs ih =>
    simp only [rsplitOnce,List.mem_cons,not_or]
    cases tail : rsplitOnce sep cs with
    | some p => simp [← ih,tail]
    | none =>
      have clean := ih.mp tail
      by_cases same : c = sep
      · simp [same]
      · simpa [same,clean] using Ne.symm same

theorem rsplitOnceSome {sep : Char} {t before after : Text}
    (h : rsplitOnce sep t = some (before,after)) : t = before ++ sep :: after ∧ sep ∉ after := by
  induction t generalizing before with
  | nil => simp [rsplitOnce] at h
  | cons c cs ih =>
    simp only [rsplitOnce] at h
    cases tail : rsplitOnce sep cs with
    | some p =>
      obtain ⟨b,a⟩ := p
      simp only [tail,Option.some.injEq,Prod.mk.injEq] at h
      obtain ⟨rfl,rfl⟩ := h
      obtain ⟨split,clean⟩ := ih tail
      exact ⟨by rw [split,List.cons_append],clean⟩
    | none =>
      simp only [tail] at h
      split at h
      · rename_i same
        cases h
        exact ⟨by rw [same,List.nil_append],rsplitOnceNone.mp tail⟩
      · contradiction

theorem rsplitOnceLast {sep : Char} {after : Text} (last : sep ∉ after) (before : Text) :
    rsplitOnce sep (before ++ sep :: after) = some (before,after) := by
  induction before with
  | nil => simp [rsplitOnce,rsplitOnceNone.mpr last]
  | cons c cs ih => simp [rsplitOnce,ih]

theorem splitOnceFirst {sep : Char} {before : Text} (first : sep ∉ before) (after : Text) :
    splitOnce sep (before ++ sep :: after) = some (before,after) := by
  induction before with
  | nil => simp [splitOnce]
  | cons c cs ih =>
    have rest := ih fun inside => first (List.mem_cons_of_mem _ inside)
    have apart : c ≠ sep := fun same => first (by simp [same])
    simp [splitOnce,rest,apart]

theorem splitOnceSome {sep : Char} {t before after : Text}
    (cut : splitOnce sep t = some (before,after)) : t = before ++ sep :: after := by
  induction t generalizing before with
  | nil => contradiction
  | cons c cs ih =>
    simp only [splitOnce] at cut
    split at cut
    · rename_i same
      obtain ⟨rfl,rfl⟩ := Prod.mk.inj (Option.some.inj cut)
      rw [same,List.nil_append]
    · obtain ⟨⟨b,a⟩,tail,shape⟩ := Option.map_eq_some_iff.mp cut
      obtain ⟨rfl,rfl⟩ := Prod.mk.inj shape
      rw [ih tail,List.cons_append]

theorem splitOnceNone {sep : Char} {t : Text} (absent : sep ∉ t) : splitOnce sep t = none := by
  cases cut : splitOnce sep t with
  | none => rfl
  | some p =>
    rw [splitOnceSome cut] at absent
    simp at absent

theorem splitOnceInside {sep : Char} {t : Text} (inside : sep ∈ t) : ∃ before after, splitOnce sep t = some (before,after) := by
  induction t with
  | nil => contradiction
  | cons c cs ih =>
    rw [splitOnce]
    split
    · exact ⟨_,_,rfl⟩
    · rename_i other
      obtain ⟨before,after,cut⟩ := ih (List.mem_of_ne_of_mem (Ne.symm other) inside)
      exact ⟨_,_,by rw [cut]; rfl⟩

def toAsciiLowercase (t : Text) : Text := t.map Char.toLower

theorem asciiTable {p : Char → Prop} (table : ∀ n < 128, p (Char.ofNat n)) {c : Char} (small : c.toNat < 128) : p c := by
  have here := table c.toNat small
  rwa [Char.ofNat_toNat] at here

theorem lowerCases (c : Char) : c.toNat < 128 ∨ 128 ≤ c.toNat ∧ c.toLower = c := by
  rcases Nat.lt_or_ge c.toNat 128 with small | large
  · exact .inl small
  · have above : ¬(c.val ≥ 'A'.val ∧ c.val ≤ 'Z'.val) := fun upper =>
      absurd (Nat.lt_of_le_of_lt upper.2 (by decide) : c.toNat < 128) (by omega)
    exact .inr ⟨large,dif_neg above⟩

theorem lowerTwice (c : Char) : c.toLower.toLower = c.toLower := by
  rcases lowerCases c with small | ⟨_,same⟩
  · exact asciiTable (p := fun c => c.toLower.toLower = c.toLower) (by decide +kernel) small
  · rw [same,same]

theorem lowercaseIdempotent (t : Text) : toAsciiLowercase (toAsciiLowercase t) = toAsciiLowercase t := by
  unfold toAsciiLowercase
  rw [List.map_map]
  exact List.map_congr_left fun c _ => lowerTwice c

theorem whitespaceLower (c : Char) : isWhitespace c.toLower = isWhitespace c := by
  rcases lowerCases c with small | ⟨_,same⟩
  · exact asciiTable (p := fun c => isWhitespace c.toLower = isWhitespace c) (by decide +kernel) small
  · rw [same]

theorem trimLower (t : Text) : trim (toAsciiLowercase t) = toAsciiLowercase (trim t) := by
  have same : isWhitespace ∘ Char.toLower = isWhitespace := funext whitespaceLower
  simp only [trim,toAsciiLowercase,List.rdropWhile,List.dropWhile_map,← List.map_reverse,same]

theorem lowercaseEmpty {t : Text} : toAsciiLowercase t = [] ↔ t = [] := List.map_eq_nil_iff

theorem trimBlankSuffix {blank : Text} (h : Blank blank) (t : Text) : trim (t ++ blank) = trim t := by
  unfold trim
  rw [List.dropWhile_append]
  split
  · rename_i empty
    rw [List.isEmpty_iff.mp empty,List.dropWhile_eq_nil_iff.mpr h]
  · rw [List.rdropWhile,List.reverse_append,
      List.dropWhile_append_of_pos fun c mem => h c (List.mem_reverse.mp mem),List.rdropWhile]

theorem trimBlank {t : Text} (h : Blank t) : trim t = [] := by
  have nothing := trimBlankPrefix h []
  rwa [List.append_nil] at nothing

end Textual
