import ProxpulseJudge.App

/-! What a signature on a judge answer binds. Challenge and direct address reach
the message without a line feed, so the message determines both and the body, and
the verdict was computed from the very address that was signed. -/
namespace ProxpulseJudge.SignedAnswer
open Textual (Text)
open Utf8 (Bytes)
open Host (normalizeHost)
open Headers (HeaderMap)
open Sign (Crypto message validNonce)
open App (AppState SocketAddr Services JudgeParams JudgeRun judgeRun sampleState sampleSocket
  sampleRequest sampleServices)

structure Filtered (run : JudgeRun) : Prop where
  challenge : '\n' ∉ run.challenge
  directIp : '\n' ∉ run.directRaw.getD []
  judged : run.direct = normalizeHost (run.directRaw.getD [])

theorem challengeFiltered (nonce : Option Text) : '\n' ∉ (nonce.filter validNonce).getD [] := by
  cases found : nonce.filter validNonce with
  | none => simp
  | some n => exact Sign.validNonceLine (Option.filter_eq_some_iff.mp found).2

theorem directFiltered (directIp : Option Text) :
    '\n' ∉ (directIp.filter (fun d => !d.contains '\n')).getD [] := by
  cases found : directIp.filter (fun d => !d.contains '\n') with
  | none => simp
  | some d => simpa using (Option.filter_eq_some_iff.mp found).2

/- An absent address and an empty one are signed alike and judged alike. -/
theorem absentIsEmpty (directRaw : Option Text) :
    directRaw.bind normalizeHost = normalizeHost (directRaw.getD []) := by
  cases directRaw with
  | none => exact Host.normalizeEmpty.symm
  | some d => rfl

theorem judgeFiltered {crypto : Crypto} (services : Services) (s : AppState crypto) (conn : SocketAddr)
    (headers : HeaderMap) (p : JudgeParams) : Filtered (judgeRun services s conn headers p) where
  challenge := challengeFiltered p.nonce
  directIp := directFiltered p.directIp
  judged := absentIsEmpty _

theorem messageOfRun {run : JudgeRun} (filtered : Filtered run) {n d : Text} {body : Bytes}
    (nLine : '\n' ∉ n) (dLine : '\n' ∉ d) (same : message n d body = run.signed) :
    n = run.challenge ∧ d = run.directRaw.getD [] ∧ body = run.body :=
  Sign.messageInjective nLine filtered.challenge dLine filtered.directIp same

theorem signedBinding {crypto crypto' : Crypto} (services services' : Services) (s : AppState crypto)
    (s' : AppState crypto') (conn conn' : SocketAddr) (headers headers' : HeaderMap)
    (p p' : JudgeParams) :
    let run := judgeRun services s conn headers p
    let run' := judgeRun services' s' conn' headers' p'
    (run.signed = run'.signed → run.challenge = run'.challenge ∧
      run.directRaw.getD [] = run'.directRaw.getD [] ∧ run.body = run'.body ∧ run.direct = run'.direct) ∧
    ∀ (n d : Text) (body : Bytes), '\n' ∉ n → '\n' ∉ d → message n d body = run.signed →
      n = run.challenge ∧ d = run.directRaw.getD [] ∧ body = run.body := by
  intro run run'
  have left : Filtered run := judgeFiltered services s conn headers p
  have right : Filtered run' := judgeFiltered services' s' conn' headers' p'
  refine ⟨fun same => ?_,fun n d body nLine dLine same => messageOfRun left nLine dLine same⟩
  obtain ⟨challenge,directIp,body⟩ := messageOfRun right left.challenge left.directIp same
  exact ⟨challenge,directIp,body,by rw [left.judged,right.judged,directIp]⟩

theorem signedBindingShortNonce :
    (judgeRun sampleServices (sampleState true false []) sampleSocket (sampleRequest [])
      ⟨some "198.51.100.7".toList,some "short".toList⟩).body =
    (judgeRun sampleServices (sampleState true false []) sampleSocket (sampleRequest [])
      ⟨some "198.51.100.7".toList,none⟩).body :=
  ((signedBinding sampleServices sampleServices (sampleState true false []) (sampleState true false [])
    sampleSocket sampleSocket (sampleRequest []) (sampleRequest []) ⟨some "198.51.100.7".toList,some "short".toList⟩
    ⟨some "198.51.100.7".toList,none⟩).1 rfl).2.2.1

end ProxpulseJudge.SignedAnswer
