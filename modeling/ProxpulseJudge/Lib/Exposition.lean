import ProxpulseJudge.Lib.Text

/-! The text exposition of metrics: comment lines with help and type, and samples with
at most one label. What is written line by line can be read back. -/
namespace Exposition
open Textual (Text splitOnce rsplitOnce)

inductive Line where
  | help (name text : Text)
  | type (name kind : Text)
  | sample (name : Text) (label : Option (Text × Text)) (value : Text)
  deriving DecidableEq

def metric (name : Text) : Option (Text × Text) → Text
  | none => name
  | some (label,value) => name ++ '\x7b' :: label ++ '=' :: '\x22' :: value ++ ['\x22','\x7d']

def helpWord : Text := ['H','E','L','P']
def typeWord : Text := ['T','Y','P','E']

def comment (word name text : Text) : Text := ['#'] ++ ' ' :: (word ++ ' ' :: (name ++ ' ' :: text))

def Line.print : Line → Text
  | .help name text => comment helpWord name text
  | .type name kind => comment typeWord name kind
  | .sample name label value => metric name label ++ ' ' :: value

def print (lines : List Line) : Text := lines.flatMap fun l => l.print ++ ['\n']

section Reading

def readComment (rest : Text) : Option Line := do
  let (word,rest) ← splitOnce ' ' rest
  let (name,text) ← splitOnce ' ' rest
  if word = helpWord then some (.help name text)
  else if word = typeWord then some (.type name text)
  else none

def readLabel (inner : Text) : Option (Text × Text) :=
  match splitOnce '=' inner with
  | some (label,'\x22' :: quoted) => match splitOnce '\x22' quoted with
    | some (value,['\x7d']) => if '\\' ∈ value then none else some (label,value)
    | _ => none
  | _ => none

def readMetric (t : Text) : Option (Text × Option (Text × Text)) :=
  match splitOnce '\x7b' t with
  | none => some (t,none)
  | some (name,inner) => (readLabel inner).map fun label => (name,some label)

def readSample (line : Text) : Option Line := do
  let (name,value) ← rsplitOnce ' ' line
  let (name,label) ← readMetric name
  some (.sample name label value)

def readLine (line : Text) : Option Line :=
  match splitOnce ' ' line with
  | none => none
  | some (front,rest) => if front = ['#'] then readComment rest else readSample line

def read (t : Text) : Option (List Line) :=
  match (t.splitOn '\n').reverse with
  | [] :: lines => lines.reverse.mapM readLine
  | _ => none

end Reading

section RoundTrip

def CleanLabel : Option (Text × Text) → Prop
  | none => True
  | some (label,value) => '=' ∉ label ∧ '\n' ∉ label ∧ '\x22' ∉ value ∧ '\\' ∉ value ∧ '\n' ∉ value

def Line.Clean : Line → Prop
  | .help name text => ' ' ∉ name ∧ '\n' ∉ name ∧ '\n' ∉ text
  | .type name kind => ' ' ∉ name ∧ '\n' ∉ name ∧ '\n' ∉ kind
  | .sample name label value => (name.head?.any (· != '#')) = true ∧ '\x7b' ∉ name ∧ '\n' ∉ name ∧ CleanLabel label ∧
    ' ' ∉ value ∧ '\n' ∉ value

theorem readCommentPrint {word name text : Text} (plain : ' ' ∉ word) (first : ' ' ∉ name) :
    readLine (comment word name text) =
      if word = helpWord then some (.help name text) else if word = typeWord then some (.type name text) else none := by
  rw [comment,readLine,Textual.splitOnceFirst (by decide)]
  simp only [if_true,readComment,Textual.splitOnceFirst plain,Textual.splitOnceFirst first,bind,Option.bind_some]

theorem readMetricPrint {name : Text} {label : Option (Text × Text)} (plain : '\x7b' ∉ name) (clean : CleanLabel label) :
    readMetric (metric name label) = some (name,label) := by
  cases label with
  | none =>
    have nothing : splitOnce '\x7b' name = none := Textual.splitOnceNone plain
    simp [readMetric,metric,nothing]
  | some pair =>
    obtain ⟨label,value⟩ := pair
    obtain ⟨equal,-,quote,escape,-⟩ := clean
    have shape : metric name (some (label,value)) =
        name ++ '\x7b' :: (label ++ '=' :: '\x22' :: (value ++ '\x22' :: ['\x7d'])) := by simp [metric]
    rw [shape,readMetric,Textual.splitOnceFirst plain]
    simp only [readLabel,Textual.splitOnceFirst equal,Textual.splitOnceFirst quote,if_neg escape,Option.map_some]

theorem readSamplePrint {name value : Text} {label : Option (Text × Text)} (plain : '\x7b' ∉ name)
    (clean : CleanLabel label) (last : ' ' ∉ value) :
    readSample (metric name label ++ ' ' :: value) = some (.sample name label value) := by
  rw [readSample,Textual.rsplitOnceLast last]
  simp only [bind,Option.bind_some,readMetricPrint plain clean]

theorem metricStart {name : Text} (start : name.head?.any (· != '#') = true) (label : Option (Text × Text)) (rest : Text) :
    ∃ c tail, metric name label ++ rest = c :: tail ∧ c ≠ '#' := by
  cases name with
  | nil => contradiction
  | cons c name =>
    have other : c ≠ '#' := by simpa using start
    cases label <;> exact ⟨c,_,rfl,other⟩

theorem readLinePrint {line : Line} (clean : line.Clean) : readLine line.print = some line := by
  cases line with
  | help name text => exact readCommentPrint (by decide) clean.1
  | type name kind => exact readCommentPrint (by decide) clean.1
  | sample name label value =>
    obtain ⟨start,plain,-,label',last,-⟩ := clean
    obtain ⟨c,tail,shape,other⟩ := metricStart start label (' ' :: value)
    rw [Line.print,readLine]
    have inside : ' ' ∈ metric name label ++ ' ' :: value := by simp
    obtain ⟨front,rest,cut⟩ := Textual.splitOnceInside inside
    have apart : front ≠ ['#'] := by
      rintro rfl
      have whole := shape.symm.trans (Textual.splitOnceSome cut)
      exact other (List.cons.inj whole).1
    simp only [cut,if_neg apart]
    exact readSamplePrint plain label' last

theorem metricLine {name : Text} {label : Option (Text × Text)} (plain : '\n' ∉ name) (clean : CleanLabel label) :
    '\n' ∉ metric name label := by
  cases label with
  | none => exact plain
  | some pair =>
    obtain ⟨-,label,-,-,value⟩ := clean
    simp [metric,plain,label,value]

theorem printLine {line : Line} (clean : line.Clean) : '\n' ∉ line.print := by
  cases line with
  | help name text => simp [Line.print,comment,helpWord,clean.2.1,clean.2.2]
  | type name kind => simp [Line.print,comment,typeWord,clean.2.1,clean.2.2]
  | sample name label value =>
    obtain ⟨-,-,plain,label',-,last⟩ := clean
    simp [Line.print,metricLine plain label',last]

theorem splitLines {lines : List Text} (single : ∀ l ∈ lines, '\n' ∉ l) :
    (lines.flatMap fun l => l ++ ['\n']).splitOn '\n' = lines ++ [[]] := by
  induction lines with
  | nil => rfl
  | cons l lines ih =>
    obtain ⟨first,rest⟩ := List.forall_mem_cons.mp single
    have whole : l.splitOnP (· == '\n') = [l] := List.splitOnP_eq_singleton fun c mem => by
      have apart : c ≠ '\n' := fun same => first (same ▸ mem)
      simpa using apart
    have later := ih rest
    rw [List.splitOn_eq_splitOnP] at later ⊢
    rw [List.flatMap_cons,List.append_assoc,List.singleton_append,List.splitOnP_append_cons l _ (by simp),whole,later]
    rfl

theorem readEach {lines : List Line} (clean : ∀ l ∈ lines, l.Clean) : (lines.map Line.print).mapM readLine = some lines := by
  induction lines with
  | nil => rfl
  | cons line lines ih =>
    obtain ⟨first,rest⟩ := List.forall_mem_cons.mp clean
    rw [List.map_cons,List.mapM_cons,readLinePrint first,ih rest]
    rfl

theorem readPrint {lines : List Line} (clean : ∀ l ∈ lines, l.Clean) : read (print lines) = some lines := by
  have pieces : (print lines).splitOn '\n' = lines.map Line.print ++ [[]] := by
    have split := @splitLines (lines.map Line.print) fun l mem => by
      obtain ⟨line,inside,rfl⟩ := List.mem_map.mp mem
      exact printLine (clean line inside)
    rwa [List.flatMap_map] at split
  rw [read,pieces,List.reverse_append]
  simpa using readEach clean

end RoundTrip
end Exposition
