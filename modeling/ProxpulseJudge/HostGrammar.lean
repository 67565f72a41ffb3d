import ProxpulseJudge.Host
import ProxpulseJudge.Lib.InetGrammar

/-! Which texts `normalize_host` accepts and what they stand for. The answer is the
printed canonical address, so comparing answers compares addresses. -/
namespace ProxpulseJudge.HostGrammar
open Textual (Text trim rsplitOnce)
open Inet (IpAddr Ipv4Addr parse display displayV4)
open Host (cleanHost normalizeHost)

inductive Denotes : Text → IpAddr → Prop where
  | literal {w ip} (read : parse w = some ip) : Denotes w ip
  | bracketed {w ip} (read : parse w = some ip) (rest : Text) : Denotes ('[' :: (w ++ ']' :: rest)) ip
  | ported {w v port} (read : parse w = some (.v4 v)) (nonempty : port ≠ [])
      (digits : ∀ c ∈ port, c.isDigit = true) : Denotes (w ++ ':' :: port) (.v4 v)

section Literals
variable {w : Text} {ip : IpAddr}

theorem literalPlain (read : parse w = some ip) {c : Char} (mem : c ∈ w) :
    Textual.isWhitespace c = false ∧ c ≠ '[' ∧ c ≠ ',' :=
  Host.addressCharPlain (Inet.parseChars read mem)

theorem literalNoBracket (read : parse w = some ip) : ']' ∉ w := by
  intro mem
  have code := Inet.addressCode (Inet.parseChars read mem)
  simp at code

theorem literalTrim (read : parse w = some ip) : trim w = w :=
  Textual.trimOfNoBlank fun _ mem => (literalPlain read mem).1

theorem literalNoPort (read : parse w = some ip) {front port : Text}
    (cut : rsplitOnce ':' w = some (front,port)) : front.all (fun c => c.isDigit || c == '.') = false := by
  obtain ⟨shape,last⟩ := Textual.rsplitOnceSome cut
  cases ip with
  | v4 v =>
    have colon : ':' ∈ w := by simp [shape]
    rw [Inet.parseV4.mp read] at colon
    exact absurd colon (Inet.displayV4NoColon v)
  | v6 v =>
    have colons := (Inet.parseV6 read).colons
    rw [shape,List.count_append,List.count_cons_self,List.count_eq_zero.mpr last] at colons
    rw [List.all_eq_false]
    exact ⟨':',List.count_pos_iff.mp (by omega),by decide⟩

theorem cleanLiteral (read : parse w = some ip) : cleanHost w = w := by
  refine Host.cleanHostKeeps (literalTrim read) ?_ fun _ _ cut => literalNoPort read cut
  exact fun first => (literalPlain read (List.mem_of_head? first)).2.1 rfl

end Literals

section Ports

theorem decimalIsDigit {c : Char} (digit : Inet.isDigitOf 10 c = true) : c.isDigit = true := by
  obtain ⟨d,value⟩ := Option.isSome_iff_exists.mp digit
  obtain ⟨small,rfl⟩ := Inet.decimalChar value
  have table : ∀ d < 10, (Nat.digitChar d).isDigit = true := by decide
  exact table d small

theorem quadPlain (v : Ipv4Addr) : (displayV4 v).all (fun c => c.isDigit || c == '.') = true := by
  rw [List.all_eq_true]
  intro c mem
  rcases Inet.displayV4Chars mem with digit | dot
  · simp [decimalIsDigit digit]
  · simp [dot]

theorem quadPieces (v : Ipv4Addr) : ((displayV4 v).splitOn '.').length = 4 := by
  have noDot : ∀ piece ∈ v.octets.map (fun o => Nat.toDigits 10 o.toNat), '.' ∉ piece := by
    intro piece mem dot
    obtain ⟨o,_,rfl⟩ := List.mem_map.mp mem
    have digit := (@Inet.toDigitsAll 10 (by omega) (by omega) o.toNat).1 _ dot
    simp [Inet.isDigitOf,Inet.digitValue] at digit
  have pieces := List.splitOn_intercalate '.' noDot (by simp [Ipv4Addr.octets])
  rw [displayV4,Textual.joinWith,pieces]
  rfl

theorem portNoColon {port : Text} (digits : ∀ c ∈ port, c.isDigit = true) : ':' ∉ port := by
  intro mem
  have digit := digits ':' mem
  contradiction

end Ports

section Cleaning
variable {t w : Text} {ip : IpAddr}

theorem cleanBracketed (read : parse w = some ip) (rest : Text) (trimmed : trim t = '[' :: (w ++ ']' :: rest)) :
    cleanHost t = w := by
  simp only [cleanHost,trimmed,Textual.splitOnceFirst (literalNoBracket read)]

theorem cleanPorted {v : Ipv4Addr} {port : Text} (nonempty : port ≠ []) (digits : ∀ c ∈ port, c.isDigit = true)
    (trimmed : trim t = displayV4 v ++ ':' :: port) : cleanHost t = displayV4 v := by
  have cut := Textual.rsplitOnceLast (portNoColon digits) (displayV4 v)
  have all : port.all Char.isDigit = true := List.all_eq_true.mpr digits
  have kept : port.isEmpty = false := by simpa using nonempty
  have noBracket : '[' ∉ (displayV4 v).head? := fun first =>
    (literalPlain (Inet.parseDisplay (.v4 v)) (List.mem_of_head? first)).2.1 rfl
  obtain ⟨c,cs,quad⟩ := List.exists_cons_of_ne_nil (Inet.displayNonempty (.v4 v))
  simp only [cleanHost,trimmed]
  split
  · rename_i stripped shape
    rw [show displayV4 v = c :: cs from quad] at shape noBracket
    simp only [List.cons_append,List.cons.injEq] at shape
    exact absurd (by simp [shape.1]) noBracket
  · simp [cut,all,kept,quadPieces,quadPlain]

theorem cleanDenotes (read : parse (cleanHost t) = some ip) : Denotes (trim t) ip := by
  simp only [cleanHost] at read
  split at read
  · rename_i stripped shape
    split at read
    · rename_i inside rest cut
      rw [shape,Textual.splitOnceSome cut]
      exact .bracketed read rest
    · exact .literal read
  · split at read
    · rename_i front port cut
      split at read
      · rename_i plain
        simp only [Bool.and_eq_true,Bool.not_eq_true',List.isEmpty_eq_false_iff,List.all_eq_true] at plain
        obtain ⟨⟨⟨nonempty,digits⟩,_⟩,quad⟩ := plain
        rw [(Textual.rsplitOnceSome cut).1]
        cases ip with
        | v4 v => exact .ported read nonempty digits
        | v6 v =>
          have colons := (Inet.parseV6 read).colons
          have colon := quad ':' (List.count_pos_iff.mp (by omega))
          contradiction
      · exact .literal read
    · exact .literal read

theorem cleanParse : parse (cleanHost t) = some ip ↔ Denotes (trim t) ip := by
  constructor
  · exact cleanDenotes
  · intro denotes
    generalize trimmed : trim t = u at denotes
    cases denotes with
    | literal read => rw [← Host.cleanHostTrim,trimmed,cleanLiteral read,read]
    | bracketed read rest => rw [cleanBracketed read rest trimmed,read]
    | ported read nonempty digits =>
      rw [Inet.parseV4.mp read] at trimmed
      rw [cleanPorted nonempty digits trimmed]
      exact Inet.parseV4.mpr rfl

end Cleaning

section Grammar

theorem denotesUnique {t : Text} {a b : IpAddr} (left : Denotes t a) (right : Denotes t b)
    (trimmed : trim t = t) : a = b := by
  have readLeft := cleanParse.mpr (trimmed.symm ▸ left)
  have readRight := cleanParse.mpr (trimmed.symm ▸ right)
  exact Option.some.inj (readLeft.symm.trans readRight)

theorem normalizeIff {s r : Text} :
    normalizeHost s = some r ↔ ∃ ip, Denotes (trim s) ip ∧ r = display ip.toCanonical := by
  constructor
  · intro accepted
    obtain ⟨ip,read,shown⟩ := Host.normalizeSource accepted
    exact ⟨ip,cleanDenotes read,shown⟩
  · intro ⟨ip,denotes,shown⟩
    rw [normalizeHost,cleanParse.mpr denotes,shown]
    rfl

theorem normalizeLiteral {w : Text} {ip : IpAddr} (read : parse w = some ip) :
    normalizeHost w = some (display ip.toCanonical) :=
  normalizeIff.mpr ⟨ip,(literalTrim read).symm ▸ .literal read,rfl⟩

theorem displayInjective {a b : IpAddr} (same : display a = display b) : a = b :=
  Option.some.inj (by rw [← Inet.parseDisplay a,same,Inet.parseDisplay b])

theorem sameAnswer {s t : Text} {a b : IpAddr} (left : Denotes (trim s) a) (right : Denotes (trim t) b) :
    normalizeHost s = normalizeHost t ↔ a.toCanonical = b.toCanonical := by
  rw [normalizeIff.mpr ⟨a,left,rfl⟩,normalizeIff.mpr ⟨b,right,rfl⟩]
  exact ⟨fun same => displayInjective (Option.some.inj same),fun same => by rw [same]⟩

theorem hostGrammar :
    (∀ s r, normalizeHost s = some r ↔ ∃ ip, Denotes (trim s) ip ∧ r = display ip.toCanonical) ∧
    (∀ s a b, Denotes (trim s) a → Denotes (trim s) b → a = b) ∧
    (∀ s r, normalizeHost s = some r → normalizeHost r = some r) ∧
    ∀ s t a b, Denotes (trim s) a → Denotes (trim t) b →
      (normalizeHost s = normalizeHost t ↔ a.toCanonical = b.toCanonical) :=
  ⟨fun _ _ => normalizeIff,fun s _ _ left right => denotesUnique left right (Textual.trimIdempotent s),
    fun _ _ => Host.normalizeIdempotent,fun _ _ _ _ => sameAnswer⟩

theorem hostGrammarMapped : normalizeHost " [::FFFF:102:304]:x".toList = normalizeHost "1.2.3.4:80 ".toList := by
  refine (hostGrammar.2.2.2 _ _ (.v6 ⟨[0,0,0,0,0,0xffff,0x102,0x304],rfl⟩) (.v4 ⟨1,2,3,4⟩) ?_ ?_).mpr rfl
  · exact @Denotes.bracketed "::FFFF:102:304".toList _ (by decide) ":x".toList
  · exact @Denotes.ported "1.2.3.4".toList _ "80".toList (by decide) (by decide)
      (List.all_eq_true.mp (by decide))

end Grammar

end ProxpulseJudge.HostGrammar
