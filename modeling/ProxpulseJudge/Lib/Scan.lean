import ProxpulseJudge.Lib.Text

/-! Left-to-right substring search without overlaps, and occurrences that stand
alone between characters outside a class. A character that neither belongs to
the needle nor to the class cuts a haystack into independent parts. -/
namespace Scan
open Textual (Text)

/- `skip` counts the characters of the current match still to be passed over. -/
def matchesFrom (needle : Text) : Nat → Nat → Text → List Nat
  | _,_,[] => []
  | skip+1,position,_ :: rest => matchesFrom needle skip (position+1) rest
  | 0,position,c :: rest =>
    if needle.isPrefixOf (c :: rest) then
      position :: matchesFrom needle (needle.length-1) (position+1) rest
    else matchesFrom needle 0 (position+1) rest

def matchIndices (needle hay : Text) : List Nat := matchesFrom needle 0 0 hay

theorem matchesShift (needle : Text) (skip position offset : Nat) (hay : Text) :
    matchesFrom needle skip (position+offset) hay =
      (matchesFrom needle skip position hay).map (· + offset) := by
  induction hay generalizing skip position with
  | nil => cases skip <;> simp [matchesFrom]
  | cons c cs ih =>
    have next : position+offset+1 = (position+1)+offset := by omega
    cases skip with
    | succ skip => simp only [matchesFrom,next,ih]
    | zero =>
      simp only [matchesFrom,next,ih]
      split <;> simp

theorem prefixStops {needle : Text} {s : Char} (absent : s ∉ needle) (x y : Text) :
    needle.isPrefixOf (x ++ s :: y) = needle.isPrefixOf x := by
  rw [Bool.eq_iff_iff,List.isPrefixOf_iff_prefix,List.isPrefixOf_iff_prefix]
  constructor
  · intro inWhole
    rcases List.prefix_or_prefix_of_prefix inWhole (List.prefix_append x (s :: y)) with short | ⟨rest,rfl⟩
    · exact short
    · have inRest : rest <+: s :: y := (List.prefix_append_right_inj x).mp inWhole
      cases rest with
      | nil => simp
      | cons d ds =>
        have same : d = s := (List.cons_prefix_cons.mp inRest).1
        exact absurd (by simp [same]) absent
  · exact fun short => short.trans (List.prefix_append _ _)

theorem matchesCut {needle : Text} {s : Char} (nonempty : needle ≠ []) (absent : s ∉ needle)
    (x y : Text) (skip position : Nat) (enough : skip ≤ x.length) :
    matchesFrom needle skip position (x ++ s :: y) =
      matchesFrom needle skip position x ++ matchesFrom needle 0 (position+x.length+1) y := by
  induction x generalizing skip position with
  | nil =>
    have zero : skip = 0 := by simpa using enough
    have noMatch : needle.isPrefixOf (s :: y) = false := by
      rw [← List.nil_append (s :: y),prefixStops absent]
      cases needle with
      | nil => contradiction
      | cons d ds => rfl
    subst zero
    simp [matchesFrom,noMatch]
  | cons c cs ih =>
    have later : position+(c :: cs).length+1 = (position+1)+cs.length+1 := by simp; omega
    rw [later]
    cases skip with
    | succ skip =>
      simp only [List.cons_append,matchesFrom]
      exact ih skip (position+1) (by simpa using enough)
    | zero =>
      have stop : needle.isPrefixOf (c :: (cs ++ s :: y)) = needle.isPrefixOf (c :: cs) :=
        prefixStops absent (c :: cs) y
      simp only [List.cons_append,matchesFrom,stop]
      split
      · rename_i found
        have short := (List.isPrefixOf_iff_prefix.mp found).length_le
        rw [ih (needle.length-1) (position+1) (by simp at short; omega)]
        rfl
      · exact ih 0 (position+1) (Nat.zero_le _)

theorem matchesBound {needle hay : Text} {skip position i : Nat}
    (mem : i ∈ matchesFrom needle skip position hay) :
    position ≤ i ∧ i+needle.length ≤ position+hay.length := by
  induction hay generalizing skip position with
  | nil => cases skip <;> simp [matchesFrom] at mem
  | cons c cs ih =>
    have widen {skip' : Nat} (h : i ∈ matchesFrom needle skip' (position+1) cs) :
        position ≤ i ∧ i+needle.length ≤ position+(c :: cs).length := by
      have := ih h
      simp only [List.length_cons]
      omega
    cases skip with
    | succ skip => exact widen mem
    | zero =>
      simp only [matchesFrom] at mem
      split at mem
      · rename_i found
        rcases List.mem_cons.mp mem with rfl | rest
        · have := (List.isPrefixOf_iff_prefix.mp found).length_le
          omega
        · exact widen rest
      · exact widen mem

def standsAlone (inClass : Char → Bool) (needle hay : Text) (i : Nat) : Bool :=
  !((hay.take i).getLast?.any inClass) && !((hay.drop (i+needle.length)).head?.any inClass)

def occursAlone (inClass : Char → Bool) (needle hay : Text) : Bool :=
  (matchIndices needle hay).any (standsAlone inClass needle hay)

theorem standsAloneLeft {inClass : Char → Bool} {needle : Text} {s : Char} (outside : inClass s = false)
    (x y : Text) {i : Nat} (fits : i+needle.length ≤ x.length) :
    standsAlone inClass needle (x ++ s :: y) i = standsAlone inClass needle x i := by
  have before : (x ++ s :: y).take i = x.take i := List.take_append_of_le_length (by omega)
  have after : ((x ++ s :: y).drop (i+needle.length)).head?.any inClass =
      (x.drop (i+needle.length)).head?.any inClass := by
    rw [List.drop_append_of_le_length fits]
    cases x.drop (i+needle.length) with
    | nil => simp [outside]
    | cons c cs => rfl
  simp only [standsAlone,before,after]

theorem standsAloneRight {inClass : Char → Bool} {needle : Text} {s : Char} (outside : inClass s = false)
    (x y : Text) (i : Nat) :
    standsAlone inClass needle (x ++ s :: y) (i+(x.length+1)) = standsAlone inClass needle y i := by
  have cut (n : Nat) : (x ++ s :: y).drop (n+(x.length+1)) = y.drop n := by
    rw [List.drop_append,List.drop_eq_nil_of_le (by omega)]
    simp [show n+(x.length+1)-x.length = n+1 by omega]
  have before : ((x ++ s :: y).take (i+(x.length+1))).getLast?.any inClass =
      (y.take i).getLast?.any inClass := by
    rw [List.take_append,List.take_of_length_le (by omega)]
    simp only [show i+(x.length+1)-x.length = i+1 by omega,List.take_succ_cons]
    cases y.take i with
    | nil => simp [outside]
    | cons c cs => simp [List.getLast?_append,List.getLast?_cons]
  have after : (x ++ s :: y).drop (i+(x.length+1)+needle.length) = y.drop (i+needle.length) := by
    rw [show i+(x.length+1)+needle.length = (i+needle.length)+(x.length+1) by omega,cut]
  simp only [standsAlone,before,after]

theorem occursAloneCut {inClass : Char → Bool} {needle : Text} {s : Char} (nonempty : needle ≠ [])
    (absent : s ∉ needle) (outside : inClass s = false) (x y : Text) :
    occursAlone inClass needle (x ++ s :: y) =
      (occursAlone inClass needle x || occursAlone inClass needle y) := by
  have right : matchesFrom needle 0 (0+x.length+1) y =
      (matchIndices needle y).map (· + (x.length+1)) := by
    rw [show 0+x.length+1 = 0+(x.length+1) by omega]
    exact matchesShift needle 0 0 (x.length+1) y
  simp only [occursAlone,matchIndices]
  rw [matchesCut nonempty absent x y 0 0 (Nat.zero_le _),right,List.any_append,List.any_map]
  congr 1
  · rw [Bool.eq_iff_iff]
    simp only [List.any_eq_true]
    have same {i : Nat} (mem : i ∈ matchesFrom needle 0 0 x) :=
      standsAloneLeft outside x y (show i+needle.length ≤ x.length by simpa using (matchesBound mem).2)
    exact ⟨fun ⟨i,mem,alone⟩ => ⟨i,mem,by rwa [← same mem]⟩,
      fun ⟨i,mem,alone⟩ => ⟨i,mem,by rwa [same mem]⟩⟩
  · congr 1
    funext i
    exact standsAloneRight outside x y i

def tokens (inClass : Char → Bool) (t : Text) : List Text :=
  (t.splitOnP (fun c => !inClass c)).filter (fun piece => !piece.isEmpty)

theorem tokensCut {inClass : Char → Bool} {s : Char} (outside : inClass s = false) (x y : Text) :
    tokens inClass (x ++ s :: y) = tokens inClass x ++ tokens inClass y := by
  simp only [tokens]
  rw [List.splitOnP_append_cons x y (by simp [outside]),List.filter_append]

/- Every text is one run, or two texts around a character outside the class. -/
theorem runInduction {inClass : Char → Bool} {motive : Text → Prop}
    (run : ∀ t, (∀ c ∈ t, inClass c = true) → motive t)
    (cut : ∀ x s y, inClass s = false → motive x → motive y → motive (x ++ s :: y)) (t : Text) : motive t := by
  induction size : t.length using Nat.strong_induction_on generalizing t with
  | _ n ih =>
    by_cases all : ∀ c ∈ t, inClass c = true
    · exact run t all
    · obtain ⟨s,mem,outside⟩ : ∃ s ∈ t, inClass s ≠ true := by simpa using all
      obtain ⟨x,y,rfl⟩ := List.append_of_mem mem
      simp only [List.length_append,List.length_cons] at size
      exact cut x s y (by simpa using outside) (ih x.length (by omega) x rfl) (ih y.length (by omega) y rfl)

theorem tokensRun {inClass : Char → Bool} {t : Text} (all : ∀ c ∈ t, inClass c = true) :
    tokens inClass t = if t = [] then [] else [t] := by
  have whole : t.splitOnP (fun c => !inClass c) = [t] :=
    List.splitOnP_eq_singleton fun c mem => by simp [all c mem]
  cases t with
  | nil => rfl
  | cons c cs => simp [tokens,whole]

theorem matchAtStart {needle hay : Text} (found : 0 ∈ matchIndices needle hay) : needle <+: hay := by
  cases hay with
  | nil => simp [matchIndices,matchesFrom] at found
  | cons c cs =>
    simp only [matchIndices,matchesFrom] at found
    split at found
    · rename_i here
      exact List.isPrefixOf_iff_prefix.mp here
    · have later := (matchesBound found).1
      omega

theorem matchItself {needle : Text} (nonempty : needle ≠ []) : 0 ∈ matchIndices needle needle := by
  cases needle with
  | nil => contradiction
  | cons c cs => simp [matchIndices,matchesFrom]

theorem occursRun {inClass : Char → Bool} {needle t : Text} (nonempty : needle ≠ [])
    (all : ∀ c ∈ t, inClass c = true) : occursAlone inClass needle t = true ↔ needle = t := by
  constructor
  · intro found
    obtain ⟨i,mem,alone⟩ := List.any_eq_true.mp found
    simp only [standsAlone,Bool.and_eq_true,Bool.not_eq_true'] at alone
    have bound := (matchesBound mem).2
    have start : i = 0 := by
      cases before : (t.take i).getLast? with
      | none =>
        have nothing : (t.take i).length = 0 := by simpa using before
        rw [List.length_take] at nothing
        omega
      | some c =>
        have inside := all c (List.mem_of_mem_take (List.mem_of_getLast? before))
        simp [before,inside] at alone
    subst start
    obtain ⟨rest,rfl⟩ := matchAtStart mem
    cases rest with
    | nil => simp
    | cons c cs => simp [all c (by simp)] at alone
  · intro same
    subst same
    exact List.any_eq_true.mpr ⟨0,matchItself nonempty,by simp [standsAlone]⟩

/- The scan does not overlap its matches, yet no maximal run is passed over. -/
theorem occursToken {inClass : Char → Bool} {needle : Text} (nonempty : needle ≠ [])
    (inside : ∀ c ∈ needle, inClass c = true) (t : Text) :
    occursAlone inClass needle t = true ↔ needle ∈ tokens inClass t := by
  induction t using @runInduction inClass with
  | run t all =>
    rw [occursRun nonempty all,tokensRun all]
    split
    · rename_i empty
      simp [empty,nonempty]
    · simp
  | cut x s y outside left right =>
    have absent : s ∉ needle := fun mem => by simp [inside s mem] at outside
    rw [occursAloneCut nonempty absent outside,tokensCut outside,Bool.or_eq_true,left,right,List.mem_append]

theorem tokenSublist {inClass : Char → Bool} {t token : Text} (mem : token ∈ tokens inClass t) :
    token.Sublist t := by
  induction t using @runInduction inClass with
  | run t all =>
    rw [tokensRun all] at mem
    split at mem
    · contradiction
    · rw [List.mem_singleton.mp mem]
  | cut x s y outside left right =>
    rw [tokensCut outside] at mem
    rcases List.mem_append.mp mem with early | late
    · exact (left early).trans (List.sublist_append_left _ _)
    · exact ((right late).cons s).trans (List.sublist_append_right _ _)

section Phrase
variable {needle : Text}

def Borderless (needle : Text) : Prop := ∀ d < needle.length, 0 < d → ¬needle.drop d <+: needle
instance : Decidable (Borderless needle) := inferInstanceAs (Decidable (∀ d < needle.length, _))

def StandsIn (inClass : Char → Bool) (needle hay : Text) : Prop :=
  ∃ i < hay.length+1, needle <+: hay.drop i ∧ standsAlone inClass needle hay i = true
instance (inClass : Char → Bool) (hay : Text) : Decidable (StandsIn inClass needle hay) :=
  inferInstanceAs (Decidable (∃ i < hay.length+1, _))

theorem noOverlap (borderless : Borderless needle) {hay : Text} (here : needle <+: hay) {i : Nat} (later : 0 < i)
    (there : needle <+: hay.drop i) : needle.length ≤ i := by
  by_contra near
  obtain ⟨rest,rfl⟩ := here
  have inside : i < needle.length := by omega
  rw [List.drop_append_of_le_length (Nat.le_of_lt inside)] at there
  have border := List.prefix_of_prefix_length_le (List.prefix_append (needle.drop i) rest) there
    (by rw [List.length_drop]; omega)
  exact borderless i inside later border

theorem matchesEvery (nonempty : needle ≠ []) (borderless : Borderless needle) (hay : Text) (skip position i : Nat) :
    position+i ∈ matchesFrom needle skip position hay ↔ skip ≤ i ∧ needle <+: hay.drop i := by
  induction hay generalizing skip position i with
  | nil => simp [matchesFrom,nonempty]
  | cons c cs ih =>
    cases i with
    | zero =>
      cases skip with
      | succ skip =>
        have past : position ∉ matchesFrom needle skip (position+1) cs := fun mem => by
          have := (matchesBound mem).1
          omega
        simpa [matchesFrom] using past
      | zero =>
        have past (skip : Nat) : position ∉ matchesFrom needle skip (position+1) cs := fun mem => by
          have := (matchesBound mem).1
          omega
        simp only [matchesFrom,List.drop_zero,← List.isPrefixOf_iff_prefix]
        split
        · rename_i found
          simp [found]
        · rename_i missing
          simp [missing,past]
    | succ i =>
      have shifted : position+(i+1) = (position+1)+i := by omega
      rw [shifted,List.drop_succ_cons]
      cases skip with
      | succ skip => rw [matchesFrom,ih,Nat.succ_le_succ_iff]
      | zero =>
        simp only [matchesFrom]
        split
        · rename_i found
          have here := List.isPrefixOf_iff_prefix.mp found
          rw [List.mem_cons,ih]
          constructor
          · rintro (same | ⟨_,there⟩)
            · omega
            · exact ⟨Nat.zero_le _,there⟩
          · intro ⟨_,there⟩
            have far := noOverlap borderless here (Nat.succ_pos i) (by rwa [List.drop_succ_cons])
            exact .inr ⟨by omega,there⟩
        · rw [ih]
          simp

theorem occursPhrase {inClass : Char → Bool} (nonempty : needle ≠ []) (borderless : Borderless needle) (hay : Text) :
    occursAlone inClass needle hay = true ↔ StandsIn inClass needle hay := by
  have every (i : Nat) : i ∈ matchIndices needle hay ↔ needle <+: hay.drop i := by
    have found := matchesEvery nonempty borderless hay 0 0 i
    rwa [Nat.zero_add,and_iff_right (Nat.zero_le i)] at found
  simp only [occursAlone,List.any_eq_true,StandsIn,every]
  constructor
  · intro ⟨i,here,alone⟩
    refine ⟨i,?_,here,alone⟩
    by_contra past
    rw [List.drop_eq_nil_of_le (by omega)] at here
    exact nonempty (List.prefix_nil.mp here)
  · exact fun ⟨i,_,here,alone⟩ => ⟨i,here,alone⟩

end Phrase

end Scan
