import ProxpulseJudge.Lib.InetDisplay

/-! One address entry of a forwarding header, as `clean_host` and
`normalize_host` of `logic.rs` read it. -/
namespace ProxpulseJudge.Host
open Textual (Text trim splitOnce rsplitOnce)
open Inet (IpAddr parse display)

def cleanHost (s : Text) : Text :=
  let t := trim s
  match t with
  | '[' :: stripped => match splitOnce ']' stripped with
    | some (inside,_) => inside
    | none => t
  | _ => match rsplitOnce ':' t with
    | some (ip,port) =>
      if !port.isEmpty && port.all Char.isDigit && (ip.splitOn '.').length == 4 &&
          ip.all (fun c => c.isDigit || c == '.') then ip
      else t
    | none => t

def normalizeHost (s : Text) : Option Text := (parse (cleanHost s)).map (fun ip => display ip.toCanonical)

theorem normalizeSource {s t : Text} (h : normalizeHost s = some t) :
    ∃ ip, parse (cleanHost s) = some ip ∧ t = display ip.toCanonical := by
  obtain ⟨ip,read,shown⟩ := Option.map_eq_some_iff.mp h
  exact ⟨ip,read,shown.symm⟩

theorem cleanHostTrim (s : Text) : cleanHost (trim s) = cleanHost s := by
  simp only [cleanHost,Textual.trimIdempotent]

theorem normalizeTrim (s : Text) : normalizeHost (trim s) = normalizeHost s := by
  simp only [normalizeHost,cleanHostTrim]

@[simp] theorem normalizeEmpty : normalizeHost [] = none := by decide

theorem addressCharPlain {c : Char} (h : Inet.AddressChar c) :
    Textual.isWhitespace c = false ∧ c ≠ '[' ∧ c ≠ ',' := by
  have code := Inet.addressCode h
  refine ⟨?_,?_,?_⟩
  · simp only [Textual.isWhitespace,Bool.or_eq_false_iff,Bool.and_eq_false_iff,decide_eq_false_iff_not,
      beq_eq_false_iff_ne]
    omega
  · intro bracket
    simp [bracket] at code
  · intro comma
    simp [comma] at code

theorem displayTrim (ip : IpAddr) : trim (display ip) = display ip :=
  Textual.trimOfNoBlank fun _ h => (addressCharPlain (Inet.displayChars h)).1

theorem cleanHostKeeps {t : Text} (trimmed : trim t = t) (noBracket : '[' ∉ t.head?)
    (noPort : ∀ ip port, rsplitOnce ':' t = some (ip,port) →
      ip.all (fun c => c.isDigit || c == '.') = false) : cleanHost t = t := by
  have tail : (match rsplitOnce ':' t with
      | some (ip,port) =>
        if !port.isEmpty && port.all Char.isDigit && (ip.splitOn '.').length == 4 &&
            ip.all (fun c => c.isDigit || c == '.') then ip
        else t
      | none => t) = t := by
    cases cut : rsplitOnce ':' t with
    | none => rfl
    | some p => simp [noPort p.1 p.2 cut]
  simp only [cleanHost,trimmed]
  split
  · simp at noBracket
  · exact tail

/- An IPv6 address keeps a colon in front of its last one, so the part before
that is no dotted quad. -/
theorem cleanHostDisplay (ip : IpAddr) : cleanHost (display ip) = display ip := by
  apply cleanHostKeeps (displayTrim ip)
  · intro first
    exact (addressCharPlain (Inet.displayChars (List.mem_of_head? first))).2.1 rfl
  · intro front port cut
    obtain ⟨shape,last⟩ := Textual.rsplitOnceSome cut
    cases ip with
    | v4 v => exact absurd (by rw [show Inet.displayV4 v = _ from shape]; simp) (Inet.displayV4NoColon v)
    | v6 v =>
      have colons := Inet.displayV6Colons v
      rw [show Inet.displayV6 v = _ from shape,List.count_append,List.count_cons_self,
        List.count_eq_zero.mpr last] at colons
      have inside : ':' ∈ front := List.count_pos_iff.mp (by omega)
      rw [List.all_eq_false]
      exact ⟨':',inside,by decide⟩

theorem normalizeDisplay (ip : IpAddr) : normalizeHost (display ip) = some (display ip.toCanonical) := by
  simp [normalizeHost,cleanHostDisplay]

theorem normalizeIdempotent {s t : Text} (h : normalizeHost s = some t) : normalizeHost t = some t := by
  obtain ⟨ip,_,rfl⟩ := normalizeSource h
  rw [normalizeDisplay,Inet.canonicalIdempotent]

example : normalizeHost " [::ffff:1.2.3.4]:8080 ".toList = some "1.2.3.4".toList := by decide

end ProxpulseJudge.Host
