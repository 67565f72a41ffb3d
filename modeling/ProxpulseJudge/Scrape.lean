import ProxpulseJudge.Answer
import ProxpulseJudge.Metrics
import ProxpulseJudge.Lib.Exposition

/-! What a scrape of the counters can be read as: the exposition of `metrics.rs` is well
formed, and has every counter with its name and its value. -/
namespace ProxpulseJudge.Scrape
open Textual (Text)
open Utf8 (encode)
open Keyed (Table)
open Exposition (Line)
open Metrics (Counter counters counterLines)

def counterKind : Text := "counter".toList
def gaugeKind : Text := "gauge".toList

def counterEntry (name help : Text) (value : UInt64) : List Line :=
  [.help name help,.type name counterKind,.sample name none (Nat.toDigits 10 value.toNat)]

def geoReadyName : Text := "proxpulse_geo_ready".toList
def buildInfoName : Text := "proxpulse_build_info".toList

def exposed (m : Metrics) (geoReady : Bool) (version : Text) : List Line :=
  counters.flatMap (fun c => counterEntry c.1 c.2.1 (m.load c.2.2)) ++
    [.help geoReadyName "1 when at least one geo database is loaded.".toList,.type geoReadyName gaugeKind,
      .sample geoReadyName none (if geoReady then "1" else "0").toList,
      .help buildInfoName "Build version information.".toList,.type buildInfoName gaugeKind,
      .sample buildInfoName (some ("version".toList,version)) "1".toList]

section Printed

theorem helpText : "# HELP ".toList = '#' :: ' ' :: (Exposition.helpWord ++ [' ']) := rfl
theorem typeText : "\n# TYPE ".toList = '\n' :: '#' :: ' ' :: (Exposition.typeWord ++ [' ']) := rfl
theorem counterText : " counter\n".toList = ' ' :: (counterKind ++ ['\n']) := by decide
theorem spaceText : " ".toList = [' '] := rfl
theorem lineText : "\n".toList = ['\n'] := rfl

theorem entryPrinted (name help digits : Text) :
    "# HELP ".toList ++ name ++ " ".toList ++ help ++ "\n# TYPE ".toList ++ name ++ " counter\n".toList ++ name ++
      " ".toList ++ digits ++ "\n".toList =
    Exposition.print [.help name help,.type name counterKind,.sample name none digits] := by
  rw [helpText,typeText,counterText,spaceText,lineText]
  simp [Exposition.print,Line.print,Exposition.comment,Exposition.metric]

theorem counterPrinted (name help : Text) (value : UInt64) :
    counterLines name help value = Exposition.print (counterEntry name help value) := entryPrinted name help _

theorem gaugesPrinted (ready version : Text) :
    "# HELP proxpulse_geo_ready 1 when at least one geo database is loaded.\n".toList ++
      ("# TYPE proxpulse_geo_ready gauge\nproxpulse_geo_ready ".toList ++ (ready ++
      ("\n# HELP proxpulse_build_info Build version information.\n# TYPE proxpulse_build_info gauge\n".toList ++
      ("proxpulse_build_info\x7bversion=\"".toList ++ (version ++ "\"\x7d 1\n".toList))))) =
    Exposition.print [.help geoReadyName "1 when at least one geo database is loaded.".toList,.type geoReadyName gaugeKind,
      .sample geoReadyName none ready,.help buildInfoName "Build version information.".toList,.type buildInfoName gaugeKind,
      .sample buildInfoName (some ("version".toList,version)) "1".toList] := by
  have first : "# HELP proxpulse_geo_ready 1 when at least one geo database is loaded.\n".toList =
      (Line.help geoReadyName "1 when at least one geo database is loaded.".toList).print ++ ['\n'] := by decide
  have second : "# TYPE proxpulse_geo_ready gauge\nproxpulse_geo_ready ".toList =
      (Line.type geoReadyName gaugeKind).print ++ '\n' :: (geoReadyName ++ [' ']) := by decide
  have third : "\n# HELP proxpulse_build_info Build version information.\n# TYPE proxpulse_build_info gauge\n".toList =
      '\n' :: ((Line.help buildInfoName "Build version information.".toList).print ++ '\n' ::
        ((Line.type buildInfoName gaugeKind).print ++ ['\n'])) := by decide
  have fourth : "proxpulse_build_info\x7bversion=\"".toList = buildInfoName ++ '\x7b' :: ("version".toList ++ ['=','\x22']) := by
    decide
  have fifth : "\"\x7d 1\n".toList = '\x22' :: '\x7d' :: ' ' :: ("1".toList ++ ['\n']) := by decide
  rw [first,second,third,fourth,fifth]
  generalize (Line.help geoReadyName "1 when at least one geo database is loaded.".toList) = a
  generalize (Line.help buildInfoName "Build version information.".toList) = b
  generalize "version".toList = v
  generalize "1".toList = o
  simp [Exposition.print,Line.print,Exposition.metric]

theorem renderPrinted (m : Metrics) (geoReady : Bool) (version : Text) :
    m.render geoReady version = Exposition.print (exposed m geoReady version) := by
  rw [Metrics.render,exposed]
  simp only [List.append_assoc]
  rw [gaugesPrinted]
  simp only [counterPrinted,Exposition.print,List.flatMap_append,List.flatMap_assoc]

end Printed

section Read

def valueOf (lines : List Line) (name : Text) : Option Text := lines.findSome? fun
  | .sample other _ value => if other = name then some value else none
  | _ => none

theorem digitsPlain {n : Nat} : ' ' ∉ Nat.toDigits 10 n ∧ '\n' ∉ Nat.toDigits 10 n := by
  constructor <;> exact fun mem => absurd (Answer.digits mem) (by decide)

theorem namesClean : ∀ c ∈ counters, ' ' ∉ c.1 ∧ '\n' ∉ c.1 ∧ '\n' ∉ c.2.1 ∧ '\x7b' ∉ c.1 ∧ c.1.head?.any (· != '#') = true := by
  decide

theorem exposedClean (m : Metrics) (geoReady : Bool) {version : Text} (quote : '\x22' ∉ version) (escape : '\\' ∉ version)
    (line : '\n' ∉ version) : ∀ l ∈ exposed m geoReady version, l.Clean := by
  intro l mem
  rcases List.mem_append.mp mem with counter | gauge
  · obtain ⟨c,inside,mem⟩ := List.mem_flatMap.mp counter
    obtain ⟨space,lineFree,helpFree,brace,start⟩ := namesClean c inside
    simp only [counterEntry,List.mem_cons,List.not_mem_nil,or_false] at mem
    rcases mem with rfl | rfl | rfl
    · exact ⟨space,lineFree,helpFree⟩
    · exact ⟨space,lineFree,by decide⟩
    · exact ⟨start,brace,lineFree,trivial,digitsPlain⟩
  · simp only [List.mem_cons,List.not_mem_nil,or_false] at gauge
    rcases gauge with rfl | rfl | rfl | rfl | rfl | rfl
    · exact ⟨by decide,by decide,by decide⟩
    · exact ⟨by decide,by decide,by decide⟩
    · exact ⟨by decide,by decide,by decide,trivial,by cases geoReady <;> decide,by cases geoReady <;> decide⟩
    · exact ⟨by decide,by decide,by decide⟩
    · exact ⟨by decide,by decide,by decide⟩
    · exact ⟨by decide,by decide,by decide,⟨by decide,by decide,quote,escape,line⟩,by decide,by decide⟩

theorem renderRead (m : Metrics) (geoReady : Bool) {version : Text} (quote : '\x22' ∉ version) (escape : '\\' ∉ version)
    (line : '\n' ∉ version) : Exposition.read (m.render geoReady version) = some (exposed m geoReady version) := by
  rw [renderPrinted]
  exact Exposition.readPrint (exposedClean m geoReady quote escape line)

theorem exposedCounter (m : Metrics) (geoReady : Bool) (version : Text) : ∀ c ∈ counters,
    valueOf (exposed m geoReady version) c.1 = some (Nat.toDigits 10 (m.load c.2.2).toNat) := by
  intro c mem
  simp only [counters,List.mem_cons,List.not_mem_nil,or_false] at mem
  rcases mem with rfl | rfl | rfl | rfl | rfl | rfl | rfl <;> rfl

theorem exposedReady (m : Metrics) (geoReady : Bool) (version : Text) :
    valueOf (exposed m geoReady version) geoReadyName = some (if geoReady then "1" else "0").toList := by
  cases geoReady <;> rfl

theorem exposedSame {m m' : Metrics} {geoReady geoReady' : Bool} {version : Text}
    (same : exposed m' geoReady' version = exposed m geoReady version) : m' = m ∧ geoReady' = geoReady := by
  have loads (c : Text × Text × Counter) (mem : c ∈ counters) : m'.load c.2.2 = m.load c.2.2 := by
    have shown := exposedCounter m' geoReady' version c mem
    rw [same,exposedCounter m geoReady version c mem] at shown
    exact (UInt64.toNat_inj.mp (Answer.toDigitsInjective (Option.some.inj shown))).symm
  have ready := exposedReady m' geoReady' version
  rw [same,exposedReady] at ready
  refine ⟨?_,?_⟩
  · simp only [counters,List.forall_mem_cons,List.not_mem_nil] at loads
    obtain ⟨a,b,c,d,e,f,g,-⟩ := loads
    cases m
    cases m'
    simp only [Metrics.load] at a b c d e f g
    simp only [Metrics.mk.injEq]
    exact ⟨a,b,c,d,e,f,g⟩
  · cases geoReady <;> cases geoReady' <;> first | rfl | (revert ready; decide)

theorem scrapeReads (sources : Table Text Text) (m : Metrics) : ∃ text lines,
    (Metrics.rendered sources m).body = encode text ∧ Exposition.read text = some lines ∧
    (∀ c ∈ counters, ∃ digits, valueOf lines c.1 = some digits ∧ Nat.ofDigitChars 10 digits 0 = (m.load c.2.2).toNat) ∧
    valueOf lines geoReadyName = some (if sources.isEmpty then "0" else "1").toList ∧
    Line.sample buildInfoName (some ("version".toList,Metrics.version)) "1".toList ∈ lines ∧
    ∀ sources' m', (Metrics.rendered sources' m').body = (Metrics.rendered sources m).body →
      m' = m ∧ sources'.isEmpty = sources.isEmpty := by
  have reads (m : Metrics) (geoReady : Bool) : Exposition.read (m.render geoReady Metrics.version) =
      some (exposed m geoReady Metrics.version) := renderRead m geoReady (by decide) (by decide) (by decide)
  refine ⟨_,_,rfl,reads m _,fun c mem => ⟨_,exposedCounter _ _ _ c mem,Nat.ofDigitChars_ten_toDigits⟩,?_,by simp [exposed],
    fun sources' m' same => ?_⟩
  · rw [exposedReady,Table.isEmpty]
    cases sources.entries.isEmpty <;> rfl
  · have texts := congrArg Exposition.read (Utf8.encodeInjective same)
    rw [reads,reads] at texts
    obtain ⟨counters,ready⟩ := exposedSame (Option.some.inj texts)
    exact ⟨counters,Bool.not_inj ready⟩

end Read
end ProxpulseJudge.Scrape
