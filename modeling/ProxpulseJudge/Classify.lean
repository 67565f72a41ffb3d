import ProxpulseJudge.Lib.Scan

/-! The IP type of `logic.rs`: keyword lists over the organization and the reverse
name, by two ways of matching words, and the type they give. -/
namespace ProxpulseJudge.Classify
open Textual (Text trim toAsciiLowercase)
open Scan (tokens occursAlone StandsIn Borderless)

/- Letters and numbers of the Unicode version at hand; within ASCII they are fixed. -/
structure Alphabet where
  isAlphanumeric : Char → Bool
  ascii : ∀ c, c.toNat < 128 → isAlphanumeric c = c.isAlphanum

def hostingKw : List Text :=
  ["hosting","host","cloud","vps","dedicated","datacenter","data center","colocation","servers","cdn","compute",
    "bare metal","virtual","hypervisor"].map String.toList

def hostingVendors : List Text :=
  ["hetzner","ovh","digitalocean","amazon","aws","google","microsoft","azure","cloudflare","contabo","aeza",
    "scaleway","vultr","linode","leaseweb","selectel","timeweb","beget","alibaba","tencent","oracle cloud",
    "ibm cloud","yandex cloud"].map String.toList

def mobileKw : List Text := ["mobile","cellular","wireless","mobility","gsm","lte","5g"].map String.toList

def residentialKw : List Text :=
  ["dynamic","residential","broadband","dsl","adsl","vdsl","cable","fiber","ftth","fttb","pool","retail",
    "subscriber"].map String.toList

def businessKw : List Text :=
  ["bank","university","government","enterprise","airline","hotel"].map String.toList

def google : Text := "google".toList
def googleFiber : Text := "google fiber".toList

structure TypeSignals where
  org : Option Text
  rdns : Option Text
  hostingKw : List Text
  hostingVendor : List Text
  mobileKw : List Text
  residentialKw : List Text
  businessKw : List Text
  note : Option Text
  deriving DecidableEq, Repr

inductive IpType where
  | residential
  | mobile
  | datacenter
  | business
  | unknown
  deriving DecidableEq, Repr

def IpType.text : IpType → Text
  | .residential => "residential".toList
  | .mobile => "mobile".toList
  | .datacenter => "datacenter".toList
  | .business => "business".toList
  | .unknown => "unknown".toList

variable (alphabet : Alphabet)

def containsWord (text needle : Text) : Bool :=
  let needle := trim needle
  if needle.isEmpty then false else occursAlone alphabet.isAlphanumeric needle text

def hits (text : Text) (keywords : List Text) : List Text :=
  let t := toAsciiLowercase text
  (keywords.filter (fun k => containsWord alphabet t k)).map trim

def classifyIp (org rdns : Option Text) : IpType × TypeSignals :=
  let hayOrg := org.getD []
  let hayAll := hayOrg ++ " ".toList ++ rdns.getD []
  let low := toAsciiLowercase hayOrg
  let tokens := tokens alphabet.isAlphanumeric low
  let fiber := containsWord alphabet low googleFiber
  let hostingVendor := hostingVendors.filter (fun v =>
    if v = google && fiber then false
    else if v.contains ' ' then containsWord alphabet low v
    else tokens.contains v)
  let signals : TypeSignals :=
    ⟨org,rdns,hits alphabet hayOrg hostingKw,hostingVendor,hits alphabet hayAll mobileKw,
      hits alphabet hayAll residentialKw,hits alphabet hayOrg businessKw,none⟩
  if fiber then (.residential,{ signals with note := some "google fiber: residential ISP".toList })
  else if !signals.mobileKw.isEmpty then (.mobile,signals)
  else if !signals.hostingKw.isEmpty || !signals.hostingVendor.isEmpty then (.datacenter,signals)
  else if !signals.businessKw.isEmpty then (.business,signals)
  else if !signals.residentialKw.isEmpty then (.residential,signals)
  else if !(trim hayOrg).isEmpty then
    (.residential,{ signals with note := some "default: ordinary ISP".toList })
  else (.unknown,signals)

section Words
variable {alphabet}

def words (alphabet : Alphabet) (t : Text) : List Text := tokens alphabet.isAlphanumeric (toAsciiLowercase t)

def Phrase (alphabet : Alphabet) (needle t : Text) : Prop :=
  StandsIn alphabet.isAlphanumeric needle (toAsciiLowercase t)
instance (needle t : Text) : Decidable (Phrase alphabet needle t) :=
  inferInstanceAs (Decidable (StandsIn alphabet.isAlphanumeric needle (toAsciiLowercase t)))

def Mentions (alphabet : Alphabet) (k t : Text) : Prop := if ' ' ∈ k then Phrase alphabet k t else k ∈ words alphabet t
instance (k t : Text) : Decidable (Mentions alphabet k t) :=
  inferInstanceAs (Decidable (if ' ' ∈ k then Phrase alphabet k t else k ∈ words alphabet t))

structure Single (k : Text) : Prop where
  nonempty : k ≠ []
  plain : k.all Char.isAlphanum = true

/- Entries of more words cannot overlap themselves. -/
structure Double (k : Text) : Prop where
  trimmed : trim k = k
  spaced : ' ' ∈ k
  borderless : Borderless k

instance (k : Text) : Decidable (Single k) :=
  decidable_of_iff (k ≠ [] ∧ k.all Char.isAlphanum = true) ⟨fun h => ⟨h.1,h.2⟩,fun h => ⟨h.nonempty,h.plain⟩⟩

instance (k : Text) : Decidable (Double k) :=
  decidable_of_iff (trim k = k ∧ ' ' ∈ k ∧ Borderless k)
    ⟨fun h => ⟨h.1,h.2.1,h.2.2⟩,fun h => ⟨h.trimmed,h.spaced,h.borderless⟩⟩

theorem alphanumPlain {c : Char} (plain : c.isAlphanum = true) :
    c.toNat < 128 ∧ Textual.isWhitespace c = false ∧ c ≠ ' ' := by
  have small : c.toNat < 128 := by
    delta Char.isAlphanum Char.isAlpha Char.isUpper Char.isLower Char.isDigit at plain
    simp only [Bool.or_eq_true,Bool.and_eq_true,decide_eq_true_eq,UInt32.le_iff_toNat_le,ge_iff_le] at plain
    change ((65 ≤ c.toNat ∧ c.toNat ≤ 90) ∨ (97 ≤ c.toNat ∧ c.toNat ≤ 122)) ∨ 48 ≤ c.toNat ∧ c.toNat ≤ 57 at plain
    omega
  exact ⟨small,Textual.asciiTable (p := fun c => c.isAlphanum = true → Textual.isWhitespace c = false ∧ c ≠ ' ')
    (by decide +kernel) small plain⟩

theorem spaceOutside (alphabet : Alphabet) : alphabet.isAlphanumeric ' ' = false := alphabet.ascii ' ' (by decide)

variable {k t : Text}

theorem singlePlain (single : Single k) {c : Char} (mem : c ∈ k) : c.isAlphanum = true :=
  List.all_eq_true.mp single.plain c mem

theorem singleNoSpace (single : Single k) : ' ' ∉ k := fun mem => (alphanumPlain (singlePlain single mem)).2.2 rfl

theorem singleTrim (single : Single k) : trim k = k :=
  Textual.trimOfNoBlank fun _ mem => (alphanumPlain (singlePlain single mem)).2.1

theorem containsSingle (single : Single k) (t : Text) :
    containsWord alphabet t k = true ↔ k ∈ tokens alphabet.isAlphanumeric t := by
  have inside : ∀ c ∈ k, alphabet.isAlphanumeric c = true := by
    intro c mem
    have plain := singlePlain single mem
    rw [alphabet.ascii c (alphanumPlain plain).1,plain]
  rw [containsWord,singleTrim single,if_neg (by simpa using single.nonempty)]
  exact Scan.occursToken single.nonempty inside t

theorem containsDouble (double : Double k) (t : Text) :
    containsWord alphabet t k = true ↔ StandsIn alphabet.isAlphanumeric k t := by
  have nonempty : k ≠ [] := fun empty => by simpa [empty] using double.spaced
  rw [containsWord,double.trimmed,if_neg (by simpa using nonempty)]
  exact Scan.occursPhrase nonempty double.borderless t

theorem containsEntry (shape : Single k ∨ Double k) (t : Text) :
    containsWord alphabet (toAsciiLowercase t) k = true ↔ Mentions alphabet k t := by
  unfold Mentions
  rcases shape with single | double
  · rw [if_neg (singleNoSpace single)]
    exact containsSingle single _
  · rw [if_pos double.spaced]
    exact containsDouble double _

theorem hitsMentions {table : List Text} (shapes : ∀ k ∈ table, Single k ∨ Double k) (t : Text) :
    hits alphabet t table = table.filter (fun k => decide (Mentions alphabet k t)) := by
  have kept : table.filter (fun k => containsWord alphabet (toAsciiLowercase t) k) =
      table.filter (fun k => decide (Mentions alphabet k t)) := by
    refine List.filter_congr fun k mem => ?_
    rw [Bool.eq_iff_iff,decide_eq_true_eq]
    exact containsEntry (shapes k mem) t
  have trimmed : ∀ k ∈ table.filter (fun k => decide (Mentions alphabet k t)), trim k = k := by
    intro k mem
    rcases shapes k (List.mem_of_mem_filter mem) with single | double
    · exact singleTrim single
    · exact double.trimmed
  rw [hits,kept]
  exact (List.map_congr_left trimmed).trans (List.map_id _)

theorem wordsJoined (alphabet : Alphabet) (a b : Text) :
    words alphabet (a ++ " ".toList ++ b) = words alphabet a ++ words alphabet b := by
  have lowered : toAsciiLowercase (a ++ " ".toList ++ b) = toAsciiLowercase a ++ ' ' :: toAsciiLowercase b := by
    simp [toAsciiLowercase]
  rw [words,lowered]
  exact Scan.tokensCut (spaceOutside alphabet) _ _

theorem mentionsSingle (single : Single k) : Mentions alphabet k t ↔ k ∈ words alphabet t := by
  rw [Mentions,if_neg (singleNoSpace single)]

theorem hitsSingle {table : List Text} (singles : ∀ k ∈ table, Single k) (a b : Text) :
    hits alphabet (a ++ " ".toList ++ b) table =
      table.filter (fun k => decide (k ∈ words alphabet a ∨ k ∈ words alphabet b)) := by
  rw [hitsMentions fun k mem => .inl (singles k mem)]
  refine List.filter_congr fun k mem => ?_
  rw [decide_eq_decide,mentionsSingle (singles k mem),wordsJoined,List.mem_append]

end Words

section Tables

theorem hostingShapes : ∀ k ∈ hostingKw, Single k ∨ Double k := by decide +kernel
theorem vendorShapes : ∀ k ∈ hostingVendors, Single k ∨ Double k := by decide +kernel
theorem mobileSingles : ∀ k ∈ mobileKw, Single k := by decide +kernel
theorem residentialSingles : ∀ k ∈ residentialKw, Single k := by decide +kernel
theorem businessSingles : ∀ k ∈ businessKw, Single k := by decide +kernel
theorem fiberDouble : Double googleFiber := by decide +kernel

theorem entryShapes : ∀ k ∈ hostingKw ++ hostingVendors ++ mobileKw ++ residentialKw ++ businessKw,
    Single k ∨ Double k := by
  simp only [List.forall_mem_append]
  exact ⟨⟨⟨⟨hostingShapes,vendorShapes⟩,fun k mem => .inl (mobileSingles k mem)⟩,
    fun k mem => .inl (residentialSingles k mem)⟩,fun k mem => .inl (businessSingles k mem)⟩

end Tables

section Classes
variable {alphabet} (org rdns : Option Text)

def vendorHits (alphabet : Alphabet) (t : Text) : List Text :=
  hostingVendors.filter (fun v =>
    if v = google && containsWord alphabet (toAsciiLowercase t) googleFiber then false
    else if v.contains ' ' then containsWord alphabet (toAsciiLowercase t) v
    else (words alphabet t).contains v)

theorem fiberPhrase (t : Text) :
    containsWord alphabet (toAsciiLowercase t) googleFiber = true ↔ Phrase alphabet googleFiber t :=
  containsDouble fiberDouble _

theorem vendorMentions (t : Text) : vendorHits alphabet t =
    hostingVendors.filter (fun v => decide (Mentions alphabet v t ∧ ¬(v = google ∧ Phrase alphabet googleFiber t))) := by
  refine List.filter_congr fun v mem => ?_
  have entry := @containsEntry alphabet v (vendorShapes v mem) t
  rw [Bool.eq_iff_iff,decide_eq_true_eq,← fiberPhrase]
  by_cases fiber : v = google ∧ containsWord alphabet (toAsciiLowercase t) googleFiber = true
  · simp [fiber]
  · have other : (decide (v = google) && containsWord alphabet (toAsciiLowercase t) googleFiber) = false := by
      simpa using fiber
    simp only [other,Bool.false_eq_true,if_false,fiber,not_false_eq_true,and_true]
    split
    · exact entry
    · rename_i noSpace
      rw [Mentions,if_neg (by simpa using noSpace),List.contains_iff_mem]

theorem classifySignals : ∃ note, (classifyIp alphabet org rdns).2 =
    ⟨org,rdns,hits alphabet (org.getD []) hostingKw,vendorHits alphabet (org.getD []),
      hits alphabet (org.getD [] ++ " ".toList ++ rdns.getD []) mobileKw,
      hits alphabet (org.getD [] ++ " ".toList ++ rdns.getD []) residentialKw,
      hits alphabet (org.getD []) businessKw,note⟩ := by
  unfold classifyIp
  dsimp only
  repeat' split
  all_goals exact ⟨_,rfl⟩

def typeOf (alphabet : Alphabet) (o : Text) (s : TypeSignals) : IpType :=
  if Phrase alphabet googleFiber o then .residential
  else if s.mobileKw ≠ [] then .mobile
  else if s.hostingKw ≠ [] ∨ s.hostingVendor ≠ [] then .datacenter
  else if s.businessKw ≠ [] then .business
  else if s.residentialKw ≠ [] then .residential
  else if trim o ≠ [] then .residential
  else .unknown

theorem filledSome {l : List α} : ((!l.isEmpty) = true) = (l ≠ []) := by cases l <;> simp

theorem classifyType : (classifyIp alphabet org rdns).1 =
    typeOf alphabet (org.getD []) (classifyIp alphabet org rdns).2 := by
  obtain ⟨note,lists⟩ := @classifySignals alphabet org rdns
  rw [lists]
  unfold classifyIp typeOf vendorHits words
  simp only [← fiberPhrase,Bool.or_eq_true,filledSome]
  repeat' split
  all_goals rfl

theorem classifyWords (alphabet : Alphabet) (org rdns : Option Text) :
    let o := org.getD []
    let r := rdns.getD []
    let answer := classifyIp alphabet org rdns
    let signals := answer.2
    (signals.org = org ∧ signals.rdns = rdns ∧
      signals.hostingKw = hostingKw.filter (fun k => decide (Mentions alphabet k o)) ∧
      signals.hostingVendor = hostingVendors.filter (fun v =>
        decide (Mentions alphabet v o ∧ ¬(v = google ∧ Phrase alphabet googleFiber o))) ∧
      signals.mobileKw =
        mobileKw.filter (fun k => decide (k ∈ words alphabet o ∨ k ∈ words alphabet r)) ∧
      signals.residentialKw =
        residentialKw.filter (fun k => decide (k ∈ words alphabet o ∨ k ∈ words alphabet r)) ∧
      signals.businessKw = businessKw.filter (fun k => decide (k ∈ words alphabet o))) ∧
    answer.1 = typeOf alphabet o signals ∧
    ∀ k ∈ hostingKw ++ hostingVendors ++ mobileKw ++ residentialKw ++ businessKw, ' ' ∉ k →
      ∀ t, containsWord alphabet t k = (tokens alphabet.isAlphanumeric t).contains k := by
  obtain ⟨note,lists⟩ := @classifySignals alphabet org rdns
  refine ⟨?_,classifyType org rdns,fun k mem noSpace t => ?_⟩
  · rw [lists]
    refine ⟨rfl,rfl,hitsMentions hostingShapes _,vendorMentions _,hitsSingle mobileSingles _ _,
      hitsSingle residentialSingles _ _,?_⟩
    refine (hitsMentions (fun k mem => .inl (businessSingles k mem)) _).trans (List.filter_congr fun k mem => ?_)
    rw [decide_eq_decide]
    exact mentionsSingle (businessSingles k mem)
  · have single : Single k := (entryShapes k mem).resolve_right fun double => noSpace double.spaced
    rw [Bool.eq_iff_iff,List.contains_iff_mem]
    exact containsSingle single t

example : (classifyIp ⟨Char.isAlphanum,fun _ _ => rfl⟩ (some "Shaw Communications".toList) none).1 =
    .residential := by decide +kernel

end Classes
end ProxpulseJudge.Classify
