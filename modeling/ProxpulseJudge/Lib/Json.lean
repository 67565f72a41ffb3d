import ProxpulseJudge.Lib.Table
import ProxpulseJudge.Lib.Utf8
import Mathlib.Data.List.Sort

/-! JSON values, their compact printing, and that the printed text can be cut off any
text it begins in one way only. How numbers are printed is left open. -/
namespace Json
open Textual (Text)
open Keyed (Table)
open Utf8 (encode)

inductive Value (N : Type) where
  | null
  | bool (b : Bool)
  | number (n : N)
  | string (t : Text)
  | array (items : List (Value N))
  | object (entries : List (Text × Value N))

def isNumeral (c : Char) : Bool := c.isDigit || ['-','+','.','e','E'].contains c

structure Numerals (N : Type) where
  text : N → Text
  nonempty : ∀ n, text n ≠ []
  numeral : ∀ n, ∀ c ∈ text n, isNumeral c = true
  injective : ∀ {n m}, text n = text m → n = m

section Strings

def quote : Char := Char.ofNat 34
def backslash : Char := Char.ofNat 92

def shortEscapes : List (Char × Char) :=
  [(quote,quote),(backslash,backslash),(Char.ofNat 8,'b'),('\t','t'),('\n','n'),(Char.ofNat 12,'f'),('\r','r')]

def escape (c : Char) : Text :=
  match shortEscapes.lookup c with
  | some letter => [backslash,letter]
  | none => if c.toNat < 32 then "\\u00".toList ++ [Nat.digitChar (c.toNat/16),Nat.digitChar (c.toNat%16)] else [c]

def quoted (t : Text) : Text := quote :: (t.flatMap escape ++ [quote])

theorem escapeLarge {c : Char} (large : 128 ≤ c.toNat) : escape c = [c] := by
  have short : shortEscapes.lookup c = none := by
    rw [List.lookup_eq_none_iff]
    intro e mem
    rw [bne_iff_ne]
    rintro rfl
    have small : shortEscapes.all (fun e => decide (e.1.toNat < 128)) = true := by decide
    have := of_decide_eq_true (List.all_eq_true.mp small e mem)
    omega
  rw [escape,short]
  exact if_neg (by omega)

def escapeLength : Text → Nat
  | [] => 0
  | first :: rest => if first = backslash then if rest.head? = some 'u' then 6 else 2 else 1

def unescape : Text → Option Char
  | [c] => some c
  | [_,letter] => (shortEscapes.find? (fun e => e.2 = letter)).map Prod.fst
  | [_,_,_,_,high,low] =>
    ((List.range 32).find? (fun n => [Nat.digitChar (n/16),Nat.digitChar (n%16)] = [high,low])).map Char.ofNat
  | _ => none

theorem escapeCode (c : Char) : escapeLength (escape c) = (escape c).length ∧ unescape (escape c) = some c ∧
    (escape c).head?.any (· != quote) = true := by
  rcases Nat.lt_or_ge c.toNat 128 with small | large
  · exact Textual.asciiTable (p := fun c => escapeLength (escape c) = (escape c).length ∧ unescape (escape c) = some c ∧
      (escape c).head?.any (· != quote) = true) (by decide +kernel) small
  · have other {d : Char} (small : d.toNat < 128) : c ≠ d := fun same => by rw [same] at large; omega
    rw [escapeLarge large]
    exact ⟨if_neg (other (by decide)),rfl,bne_iff_ne.mpr (other (by decide))⟩

theorem escapeStart (c : Char) : ∃ d rest, escape c = d :: rest ∧ d ≠ quote := by
  have start := (escapeCode c).2.2
  cases whole : escape c with
  | nil => simp [whole] at start
  | cons d rest => exact ⟨d,rest,rfl,by simpa [whole] using start⟩

theorem escapeLengthPrefix {a b : Text} (whole : escapeLength a = a.length) (nonempty : a ≠ []) (begins : a <+: b) :
    escapeLength b = a.length := by
  obtain ⟨more,rfl⟩ := begins
  cases a with
  | nil => contradiction
  | cons first rest =>
    cases rest with
    | nil =>
      simp only [escapeLength,List.length_cons,List.length_nil] at whole
      split at whole
      · contradiction
      · rename_i plain
        exact if_neg plain
    | cons second rest => exact whole

/- Escapes are a code: none is the beginning of another. -/
theorem escapePrefix {c d : Char} (begins : escape c <+: escape d) : c = d := by
  obtain ⟨sized,read,-⟩ := escapeCode c
  obtain ⟨sized',read',-⟩ := escapeCode d
  obtain ⟨e,rest,whole,-⟩ := escapeStart c
  have lengths : (escape c).length = (escape d).length :=
    (escapeLengthPrefix sized (by simp [whole]) begins).symm.trans sized'
  rw [begins.eq_of_length lengths,read'] at read
  exact (Option.some.inj read).symm

theorem escapeCut {c d : Char} {r s : Text} (same : escape c ++ r = escape d ++ s) : c = d ∧ r = s := by
  have eq : c = d := by
    rcases List.prefix_or_prefix_of_prefix (List.prefix_append (escape c) r)
      (same ▸ List.prefix_append (escape d) s) with first | second
    · exact escapePrefix first
    · exact (escapePrefix second).symm
  subst eq
  exact ⟨rfl,List.append_cancel_left same⟩

theorem bodyCut {t u r s : Text} (same : t.flatMap escape ++ quote :: r = u.flatMap escape ++ quote :: s) :
    t = u ∧ r = s := by
  have closing {c : Char} {x y z : Text} (cross : quote :: x = escape c ++ y ++ z) : False := by
    obtain ⟨d,rest,whole,other⟩ := escapeStart c
    rw [whole] at cross
    exact other (List.cons.inj cross).1.symm
  induction t generalizing u with
  | nil =>
    cases u with
    | nil => exact ⟨rfl,(List.cons.inj same).2⟩
    | cons d u => exact (closing same).elim
  | cons c t ih =>
    cases u with
    | nil => exact (closing same.symm).elim
    | cons d u =>
      simp only [List.flatMap_cons,List.append_assoc] at same
      obtain ⟨rfl,rest⟩ := escapeCut same
      obtain ⟨rfl,tail⟩ := ih rest
      exact ⟨rfl,tail⟩

theorem quotedCut {t u r s : Text} (same : quoted t ++ r = quoted u ++ s) : t = u ∧ r = s := by
  simp only [quoted,List.cons_append,List.append_assoc,List.nil_append,List.cons.injEq,true_and] at same
  exact bodyCut same

end Strings

section Printing
variable {N : Type} (numerals : Numerals N)

mutual

def print : Value N → Text
  | .null => "null".toList
  | .bool true => "true".toList
  | .bool false => "false".toList
  | .number n => numerals.text n
  | .string t => quoted t
  | .array [] => ['[',']']
  | .array (v :: vs) => '[' :: (print v ++ printItems vs)
  | .object [] => ['\x7b','\x7d']
  | .object ((key,v) :: es) => '\x7b' :: (quoted key ++ ':' :: (print v ++ printEntries es))

def printItems : List (Value N) → Text
  | [] => [']']
  | v :: vs => ',' :: (print v ++ printItems vs)

def printEntries : List (Text × Value N) → Text
  | [] => ['\x7d']
  | (key,v) :: es => ',' :: (quoted key ++ ':' :: (print v ++ printEntries es))

end

inductive Kind where
  | null
  | yes
  | no
  | number
  | string
  | array
  | object
  deriving DecidableEq

def Value.kind : Value N → Kind
  | .null => .null
  | .bool b => if b then .yes else .no
  | .number _ => .number
  | .string _ => .string
  | .array _ => .array
  | .object _ => .object

def lead (c : Char) : Option Kind :=
  if isNumeral c then some .number
  else [('n',.null),('t',.yes),('f',.no),(quote,.string),('[',.array),('\x7b',.object)].lookup c

def Ends (r : Text) : Prop := ∀ c ∈ r.head?, isNumeral c = false

theorem printLead (v : Value N) (r : Text) : ∃ c t, print numerals v ++ r = c :: t ∧ lead c = some v.kind := by
  cases v with
  | null => exact ⟨'n',_,rfl,rfl⟩
  | bool b => cases b <;> exact ⟨_,_,rfl,rfl⟩
  | number n =>
    obtain ⟨c,t,whole⟩ := List.exists_cons_of_ne_nil (numerals.nonempty n)
    have first := numerals.numeral n c (by simp [whole])
    exact ⟨c,t ++ r,by rw [print,whole]; rfl,if_pos first⟩
  | string t => exact ⟨quote,_,rfl,rfl⟩
  | array items => cases items <;> exact ⟨'[',_,rfl,rfl⟩
  | object entries =>
    cases entries with
    | nil => exact ⟨'\x7b',_,rfl,rfl⟩
    | cons e es => exact ⟨'\x7b',_,rfl,rfl⟩

theorem printKind {v w : Value N} {r s : Text} (same : print numerals v ++ r = print numerals w ++ s) :
    v.kind = w.kind := by
  obtain ⟨c,t,left,leads⟩ := printLead numerals v r
  obtain ⟨d,u,right,leads'⟩ := printLead numerals w s
  rw [left,right] at same
  rw [(List.cons.inj same).1] at leads
  exact Option.some.inj (leads.symm.trans leads')

theorem numberCut {n m : N} {r s : Text} (ends : Ends r) (ends' : Ends s)
    (same : numerals.text n ++ r = numerals.text m ++ s) : n = m ∧ r = s := by
  have whole {n : N} {r : Text} (ends : Ends r) :
      (numerals.text n ++ r).takeWhile isNumeral = numerals.text n := by
    rw [List.takeWhile_append_of_pos (numerals.numeral n)]
    cases r with
    | nil => simp
    | cons c r => simp [ends c rfl]
  have texts : numerals.text n = numerals.text m := by rw [← whole ends,same,whole ends']
  rw [texts] at same
  exact ⟨numerals.injective texts,List.append_cancel_left same⟩

theorem endsItems (vs : List (Value N)) (r : Text) : Ends (printItems numerals vs ++ r) := by
  cases vs <;> (intro c mem; cases mem; rfl)

theorem endsEntries (es : List (Text × Value N)) (r : Text) : Ends (printEntries numerals es ++ r) := by
  cases es <;> (intro c mem; cases mem; rfl)

theorem closedCut {c : Char} (closing : lead c = none) {v : Value N} {r s : Text}
    (same : c :: r = print numerals v ++ s) : False := by
  obtain ⟨d,t,whole,leads⟩ := printLead numerals v s
  rw [whole] at same
  rw [(List.cons.inj same).1,leads] at closing
  contradiction

mutual

theorem printCut : ∀ (v w : Value N) {r s : Text}, Ends r → Ends s →
    print numerals v ++ r = print numerals w ++ s → v = w ∧ r = s
  | .null,w,r,s,_,_,same => by
    have kinds := printKind numerals same
    cases w with
    | null => exact ⟨rfl,List.append_cancel_left same⟩
    | bool c => cases c <;> contradiction
    | _ => contradiction
  | .bool b,w,r,s,_,_,same => by
    have kinds := printKind numerals same
    cases w with
    | bool c =>
      cases b <;> cases c <;> first | contradiction | exact ⟨rfl,List.append_cancel_left same⟩
    | _ => cases b <;> contradiction
  | .number n,w,r,s,ends,ends',same => by
    have kinds := printKind numerals same
    cases w with
    | number m =>
      obtain ⟨rfl,rest⟩ := numberCut numerals ends ends' same
      exact ⟨rfl,rest⟩
    | bool c => cases c <;> contradiction
    | _ => contradiction
  | .string t,w,r,s,_,_,same => by
    have kinds := printKind numerals same
    cases w with
    | string u =>
      obtain ⟨rfl,rest⟩ := quotedCut same
      exact ⟨rfl,rest⟩
    | bool c => cases c <;> contradiction
    | _ => contradiction
  | .array [],w,r,s,_,_,same => by
    have kinds := printKind numerals same
    cases w with
    | array ws =>
      cases ws with
      | nil => exact ⟨rfl,List.append_cancel_left same⟩
      | cons w ws =>
        simp only [print,List.cons_append,List.nil_append,List.append_assoc,List.cons.injEq,true_and] at same
        exact (closedCut numerals rfl same).elim
    | bool c => cases c <;> contradiction
    | _ => contradiction
  | .array (v :: vs),w,r,s,_,_,same => by
    have kinds := printKind numerals same
    cases w with
    | array ws =>
      cases ws with
      | nil =>
        simp only [print,List.cons_append,List.nil_append,List.append_assoc,List.cons.injEq,true_and] at same
        exact (closedCut numerals rfl same.symm).elim
      | cons w ws =>
        simp only [print,List.cons_append,List.append_assoc,List.cons.injEq,true_and] at same
        obtain ⟨rfl,rest⟩ := printCut v w (endsItems numerals vs r) (endsItems numerals ws s) same
        obtain ⟨rfl,tail⟩ := itemsCut vs ws rest
        exact ⟨rfl,tail⟩
    | bool c => cases c <;> contradiction
    | _ => contradiction
  | .object [],w,r,s,_,_,same => by
    have kinds := printKind numerals same
    cases w with
    | object fs =>
      cases fs with
      | nil => exact ⟨rfl,List.append_cancel_left same⟩
      | cons f fs =>
        have cross := (List.cons.inj (List.cons.inj same).2).1
        contradiction
    | bool c => cases c <;> contradiction
    | _ => contradiction
  | .object ((key,v) :: es),w,r,s,_,_,same => by
    have kinds := printKind numerals same
    cases w with
    | object fs =>
      cases fs with
      | nil =>
        have cross := (List.cons.inj (List.cons.inj same).2).1
        contradiction
      | cons f fs =>
        obtain ⟨key',w⟩ := f
        simp only [print,List.cons_append,List.append_assoc,List.cons.injEq,true_and] at same
        obtain ⟨rfl,colon⟩ := quotedCut same
        obtain ⟨rfl,rest⟩ := printCut v w (endsEntries numerals es r) (endsEntries numerals fs s) (List.cons.inj colon).2
        obtain ⟨rfl,tail⟩ := entriesCut es fs rest
        exact ⟨rfl,tail⟩
    | bool c => cases c <;> contradiction
    | _ => contradiction

theorem itemsCut : ∀ (vs ws : List (Value N)) {r s : Text},
    printItems numerals vs ++ r = printItems numerals ws ++ s → vs = ws ∧ r = s
  | [],[],r,s,same => ⟨rfl,(List.cons.inj same).2⟩
  | [],w :: ws,r,s,same => absurd (List.cons.inj same).1 (by decide)
  | v :: vs,[],r,s,same => absurd (List.cons.inj same).1 (by decide)
  | v :: vs,w :: ws,r,s,same => by
    simp only [printItems,List.cons_append,List.append_assoc,List.cons.injEq,true_and] at same
    obtain ⟨rfl,rest⟩ := printCut v w (endsItems numerals vs r) (endsItems numerals ws s) same
    obtain ⟨rfl,tail⟩ := itemsCut vs ws rest
    exact ⟨rfl,tail⟩

theorem entriesCut : ∀ (es fs : List (Text × Value N)) {r s : Text},
    printEntries numerals es ++ r = printEntries numerals fs ++ s → es = fs ∧ r = s
  | [],[],r,s,same => ⟨rfl,(List.cons.inj same).2⟩
  | [],(key,w) :: fs,r,s,same => absurd (List.cons.inj same).1 (by decide)
  | (key,v) :: es,[],r,s,same => absurd (List.cons.inj same).1 (by decide)
  | (key,v) :: es,(key',w) :: fs,r,s,same => by
    simp only [printEntries,List.cons_append,List.append_assoc,List.cons.injEq,true_and] at same
    obtain ⟨rfl,colon⟩ := quotedCut same
    obtain ⟨rfl,rest⟩ := printCut v w (endsEntries numerals es r) (endsEntries numerals fs s) (List.cons.inj colon).2
    obtain ⟨rfl,tail⟩ := entriesCut es fs rest
    exact ⟨rfl,tail⟩

end

theorem printInjective {v w : Value N} (same : print numerals v = print numerals w) : v = w := by
  have nothing : Ends [] := fun c mem => by cases mem
  refine (@printCut N numerals v w [] [] nothing nothing ?_).1
  rw [List.append_nil,List.append_nil,same]

end Printing

section Objects
variable {α N : Type}

def before (a b : Text × α) : Prop := encode a.1 ≤ encode b.1

instance : DecidableRel (before (α := α)) := fun a b => inferInstanceAs (Decidable (encode a.1 ≤ encode b.1))

instance : Std.Total (before (α := α)) := ⟨fun a b => List.le_total (encode a.1) (encode b.1)⟩

instance : IsTrans (Text × α) before := ⟨fun _ _ _ => List.le_trans⟩

def byKey (entries : List (Text × α)) : List (Text × α) := entries.insertionSort before

/- The order of the entries is not part of an object. -/
theorem byKeyIff {es fs : List (Text × α)} (distinct : (es.map Prod.fst).Nodup) : byKey es = byKey fs ↔ es.Perm fs := by
  constructor
  · intro same
    exact (List.perm_insertionSort before es).symm.trans (same.symm ▸ List.perm_insertionSort before fs : (byKey es).Perm fs)
  · intro perm
    have sorted := ((List.perm_insertionSort before es).trans perm).trans (List.perm_insertionSort before fs).symm
    refine List.Perm.eq_of_pairwise ?_ (List.pairwise_insertionSort before es) (List.pairwise_insertionSort before fs) sorted
    intro a b left right le ge
    have aMem : a ∈ es := (List.perm_insertionSort before es).mem_iff.mp left
    have bMem : b ∈ es := perm.mem_iff.mpr ((List.perm_insertionSort before fs).mem_iff.mp right)
    have keys : a.1 = b.1 := Utf8.encodeInjective (List.le_antisymm le ge)
    exact List.inj_on_of_nodup_map distinct aMem bMem keys

def object (entries : List (Text × Value N)) : Value N := .object (byKey entries)

theorem objectIff {es fs : List (Text × Value N)} (distinct : (es.map Prod.fst).Nodup) :
    object es = object fs ↔ es.Perm fs := by
  rw [object,object,Value.object.injEq,byKeyIff distinct]

def ofTable (value : α → Value N) (t : Table Text α) : Value N := object (t.entries.map (fun e => (e.1,value e.2)))

theorem ofTableIff {value : α → Value N} (injective : ∀ {a b}, value a = value b → a = b) (t u : Table Text α) :
    ofTable value t = ofTable value u ↔ ∀ key, t.get key = u.get key := by
  have keys (t : Table Text α) : ((t.entries.map (fun e => (e.1,value e.2))).map Prod.fst) = t.entries.map Prod.fst := by
    rw [List.map_map]
    rfl
  have entry (t : Table Text α) (key : Text) (a : α) :
      (key,value a) ∈ t.entries.map (fun e => (e.1,value e.2)) ↔ t.get key = some a := by
    rw [t.getMem,List.mem_map]
    constructor
    · rintro ⟨e,mem,same⟩
      obtain ⟨rfl,here⟩ := Prod.mk.inj same
      rwa [← injective here]
    · exact fun mem => ⟨_,mem,rfl⟩
  rw [ofTable,ofTable,objectIff (by rw [keys]; exact t.distinct)]
  constructor
  · intro perm key
    apply Option.ext
    intro a
    rw [← entry,← entry,perm.mem_iff]
  · intro same
    exact ((Table.permIff t u).mpr same).map _

def record (fields : List (Text × Option (Value N))) : Value N :=
  object (fields.filterMap (fun f => f.2.map (fun v => (f.1,v))))

theorem presentKeys (fields : List (Text × Option (Value N))) :
    ((fields.filterMap (fun f => f.2.map (fun v => (f.1,v)))).map Prod.fst).Sublist (fields.map Prod.fst) := by
  induction fields with
  | nil => exact .slnil
  | cons f rest ih =>
    obtain ⟨key,v⟩ := f
    cases v with
    | none => exact ih.cons _
    | some v => exact ih.cons_cons _

theorem memPresent {fields : List (Text × Option (Value N))} {key : Text} {v : Value N} :
    (key,v) ∈ fields.filterMap (fun f => f.2.map (fun v => (f.1,v))) ↔ (key,some v) ∈ fields := by
  rw [List.mem_filterMap]
  constructor
  · rintro ⟨⟨k,x⟩,mem,same⟩
    obtain ⟨w,rfl,pair⟩ := Option.map_eq_some_iff.mp same
    obtain ⟨rfl,rfl⟩ := Prod.mk.inj pair
    exact mem
  · exact fun mem => ⟨_,mem,rfl⟩

theorem recordIff {es fs : List (Text × Option (Value N))} (keys : es.map Prod.fst = fs.map Prod.fst)
    (distinct : (es.map Prod.fst).Nodup) : record es = record fs ↔ es = fs := by
  refine ⟨fun same => ?_,fun same => by rw [same]⟩
  have perm := (objectIff (distinct.sublist (presentKeys es))).mp same
  have members (key : Text) (v : Value N) : (key,some v) ∈ es ↔ (key,some v) ∈ fs := by
    rw [← memPresent,← memPresent,perm.mem_iff]
  clear same perm
  induction es generalizing fs with
  | nil => exact (List.map_eq_nil_iff.mp keys.symm).symm
  | cons e es ih =>
    obtain ⟨key,x⟩ := e
    cases fs with
    | nil => simp at keys
    | cons f fs =>
      obtain ⟨key',y⟩ := f
      simp only [List.map_cons,List.cons.injEq] at keys
      obtain ⟨rfl,tails⟩ := keys
      obtain ⟨fresh,distinct⟩ := List.nodup_cons.mp distinct
      have absent {v : Option (Value N)} : (key,v) ∉ es := fun mem => fresh (List.mem_map.mpr ⟨_,mem,rfl⟩)
      have absent' {v : Option (Value N)} : (key,v) ∉ fs := fun mem => fresh (tails ▸ List.mem_map.mpr ⟨_,mem,rfl⟩)
      have head : x = y := by
        apply Option.ext
        intro v
        have here := members key v
        simpa [absent,absent',eq_comm] using here
      subst head
      refine congrArg _ (ih tails distinct fun k v => ?_)
      have here := members k v
      by_cases same : k = key
      · subst same
        simp [absent,absent']
      · simpa [same] using here

end Objects
end Json
