import ProxpulseJudge.Lib.Seq
import ProxpulseJudge.Lib.Steps

/-! Programs over named operations, the traces they leave, layers around a service,
and many programs at once on one shared world. -/
namespace Program
open Steps (Run)

inductive Prog (Op : Type) (Ans : Op → Type) (α : Type) where
  | done (a : α)
  | call (op : Op) (next : Ans op → Prog Op Ans α)

abbrev Event (Op : Type) (Ans : Op → Type) := (op : Op) × Ans op

variable {Op Op' : Type} {Ans : Op → Type} {Ans' : Op' → Type} {α β ι σ : Type}

namespace Prog

def bind : Prog Op Ans α → (α → Prog Op Ans β) → Prog Op Ans β
  | .done a,f => f a
  | .call op next,f => .call op (fun x => (next x).bind f)

/- The timer is looked at before each further operation. -/
def expiring (timer : Op) (fired : Ans timer → Bool) : Prog Op Ans α → Prog Op Ans (Option α)
  | .done a => .done (some a)
  | .call op next =>
    .call timer (fun t => if fired t then .done none else .call op (fun x => (next x).expiring timer fired))

/- A program against a timer: it starts first, and what it did before the timer
fires stays done. -/
def race (timer : Op) (fired : Ans timer → Bool) : Prog Op Ans α → Prog Op Ans (Option α)
  | .done a => .done (some a)
  | .call op next => .call op (fun x => (next x).expiring timer fired)

def through (embed : Op' → Op) (answer : ∀ op, Ans (embed op) → Ans' op) : Prog Op' Ans' α → Prog Op Ans α
  | .done a => .done a
  | .call op next => .call (embed op) (fun x => (next (answer op x)).through embed answer)

end Prog

inductive Trace : Prog Op Ans α → List (Event Op Ans) → α → Prop where
  | done (a : α) : Trace (.done a) [] a
  | call {op next events a} (x : Ans op) (rest : Trace (next x) events a) :
      Trace (.call op next) (⟨op,x⟩ :: events) a

section Traces
variable {p : Prog Op Ans α} {events : List (Event Op Ans)}

theorem traceDone {a b : α} (trace : Trace (.done a) events b) : events = [] ∧ b = a := by
  cases trace
  exact ⟨rfl,rfl⟩

theorem traceCall {op : Op} {next : Ans op → Prog Op Ans α} {a : α} (trace : Trace (.call op next) events a) :
    ∃ x rest, events = ⟨op,x⟩ :: rest ∧ Trace (next x) rest a := by
  cases trace with
  | call x rest => exact ⟨x,_,rfl,rest⟩

theorem traceBind {f : α → Prog Op Ans β} {b : β} (trace : Trace (p.bind f) events b) :
    ∃ first a rest, events = first ++ rest ∧ Trace p first a ∧ Trace (f a) rest b := by
  induction p generalizing events with
  | done a => exact ⟨[],a,events,rfl,.done a,trace⟩
  | call op next ih =>
    obtain ⟨x,tail,rfl,more⟩ := traceCall trace
    obtain ⟨first,a,rest,rfl,left,right⟩ := ih x more
    exact ⟨⟨op,x⟩ :: first,a,rest,rfl,.call x left,right⟩

def Only (P : Op → Prop) : Prog Op Ans α → Prop
  | .done _ => True
  | .call op next => P op ∧ ∀ x, Only P (next x)

variable {P : Op → Prop}

theorem onlyTrace {a : α} (only : Only P p) (trace : Trace p events a) : ∀ e ∈ events, P e.1 := by
  induction trace with
  | done => simp
  | call x rest ih =>
    rw [List.forall_mem_cons]
    exact ⟨only.1,ih (only.2 x)⟩

theorem onlyMono {Q : Op → Prop} (weaker : ∀ op, P op → Q op) (only : Only P p) : Only Q p := by
  induction p with
  | done a => trivial
  | call op next ih => exact ⟨weaker op only.1,fun x => ih x (only.2 x)⟩

theorem onlyBind {f : α → Prog Op Ans β} (first : Only P p) (second : ∀ a, Only P (f a)) : Only P (p.bind f) := by
  induction p with
  | done a => exact second a
  | call op next ih => exact ⟨first.1,fun x => ih x (first.2 x)⟩

theorem onlyExpiring {timer : Op} {fired : Ans timer → Bool} (clock : P timer) (only : Only P p) :
    Only P (p.expiring timer fired) := by
  induction p with
  | done a => trivial
  | call op next ih =>
    refine ⟨clock,fun t => ?_⟩
    dsimp only
    split
    · trivial
    · exact ⟨only.1,fun x => ih x (only.2 x)⟩

theorem onlyRace {timer : Op} {fired : Ans timer → Bool} (clock : P timer) (only : Only P p) :
    Only P (p.race timer fired) := by
  cases p with
  | done a => trivial
  | call op next => exact ⟨only.1,fun x => onlyExpiring clock (only.2 x)⟩

theorem onlyThrough {embed : Op' → Op} {answer : ∀ op, Ans (embed op) → Ans' op} (kind : ∀ op, P (embed op))
    (q : Prog Op' Ans' α) : Only P (q.through embed answer) := by
  induction q with
  | done a => trivial
  | call op next ih => exact ⟨kind op,fun x => ih (answer op x)⟩

theorem traceExpiring {timer : Op} {fired : Ans timer → Bool} {o : Option α}
    (trace : Trace (p.expiring timer fired) events o) :
    o = none ∨ ∃ inner a, o = some a ∧ Trace p inner a ∧ inner.Sublist events := by
  induction p generalizing events with
  | done a =>
    obtain ⟨rfl,rfl⟩ := traceDone trace
    exact .inr ⟨[],a,rfl,.done a,.slnil⟩
  | call op next ih =>
    obtain ⟨t,rest,rfl,more⟩ := traceCall trace
    split at more
    · exact .inl (traceDone more).2
    · obtain ⟨x,tail,rfl,last⟩ := traceCall more
      rcases ih x last with cut | ⟨inner,a,same,run,within⟩
      · exact .inl cut
      · exact .inr ⟨⟨op,x⟩ :: inner,a,same,.call x run,(within.cons_cons _).cons _⟩

theorem traceRace {timer : Op} {fired : Ans timer → Bool} {o : Option α}
    (trace : Trace (p.race timer fired) events o) :
    o = none ∨ ∃ inner a, o = some a ∧ Trace p inner a ∧ inner.Sublist events := by
  cases p with
  | done a =>
    obtain ⟨rfl,rfl⟩ := traceDone trace
    exact .inr ⟨[],a,rfl,.done a,.slnil⟩
  | call op next =>
    obtain ⟨x,rest,rfl,more⟩ := traceCall trace
    rcases traceExpiring more with cut | ⟨inner,a,same,run,within⟩
    · exact .inl cut
    · exact .inr ⟨⟨op,x⟩ :: inner,a,same,.call x run,within.cons_cons _⟩

theorem traceThrough {q : Prog Op' Ans' α} {embed : Op' → Op} {answer : ∀ op, Ans (embed op) → Ans' op} {a : α}
    (trace : Trace (q.through embed answer) events a) : ∃ inner : List ((op : Op') × Ans (embed op)),
    events = inner.map (fun e => ⟨embed e.1,e.2⟩) ∧ Trace q (inner.map (fun e => ⟨e.1,answer e.1 e.2⟩)) a := by
  induction q generalizing events with
  | done b =>
    obtain ⟨rfl,rfl⟩ := traceDone trace
    exact ⟨[],rfl,.done a⟩
  | call op next ih =>
    obtain ⟨x,rest,rfl,more⟩ := traceCall trace
    obtain ⟨inner,rfl,run⟩ := ih _ more
    exact ⟨⟨op,x⟩ :: inner,rfl,.call _ run⟩

end Traces

section Beginnings
variable {p q : Prog Op Ans α} {events : List (Event Op Ans)}

inductive Reaches : Prog Op Ans α → List (Event Op Ans) → Prog Op Ans α → Prop where
  | here (p : Prog Op Ans α) : Reaches p [] p
  | call {op next events q} (x : Ans op) (rest : Reaches (next x) events q) :
      Reaches (.call op next) (⟨op,x⟩ :: events) q

theorem reachesNext {op : Op} {next : Ans op → Prog Op Ans α} (reaches : Reaches p events (.call op next)) (x : Ans op) :
    Reaches p (events ++ [⟨op,x⟩]) (next x) := by
  generalize same : Prog.call op next = r at reaches
  induction reaches with
  | here => exact same ▸ .call x (.here _)
  | call y rest ih => exact .call y (ih same)

theorem onlyReaches {P : Op → Prop} (only : Only P p) (reaches : Reaches p events q) : ∀ e ∈ events, P e.1 := by
  induction reaches with
  | here => simp
  | call x rest ih =>
    rw [List.forall_mem_cons]
    exact ⟨only.1,ih (only.2 x)⟩

variable {guard : Event Op Ans → Prop} {K : Op → Prop}

def Guarded (guard : Event Op Ans → Prop) (K : Op → Prop) : Prog Op Ans α → Prop
  | .done _ => True
  | .call op next => ¬K op ∧ ∀ x, guard ⟨op,x⟩ ∨ Guarded guard K (next x)

theorem guardedReaches (guarded : Guarded guard K p) (reaches : Reaches p events q) {e : Event Op Ans} (mem : e ∈ events)
    (kind : K e.1) : ∃ g ∈ events, guard g := by
  induction reaches with
  | here => cases mem
  | call x rest ih =>
    rcases List.mem_cons.mp mem with rfl | later
    · exact absurd kind guarded.1
    · rcases guarded.2 x with passed | guarded
      · exact ⟨_,.head _,passed⟩
      · obtain ⟨g,inside,passed⟩ := ih guarded later
        exact ⟨g,.tail _ inside,passed⟩

theorem guardedOnly (only : Only (fun op => ¬K op) p) : Guarded guard K p := by
  induction p with
  | done a => trivial
  | call op next ih => exact ⟨only.1,fun x => .inr (ih x (only.2 x))⟩

theorem guardedBind {f : α → Prog Op Ans β} (first : Guarded guard K p) (second : ∀ a, Guarded guard K (f a)) :
    Guarded guard K (p.bind f) := by
  induction p with
  | done a => exact second a
  | call op next ih => exact ⟨first.1,fun x => (first.2 x).imp_right (ih x)⟩

def Once (K : Op → Prop) : Prog Op Ans α → Prop
  | .done _ => True
  | .call op next => (K op → ∀ x, Only (fun op => ¬K op) (next x)) ∧ ∀ x, Once K (next x)

theorem onceOnly (only : Only (fun op => ¬K op) p) : Once K p := by
  induction p with
  | done a => trivial
  | call op next ih => exact ⟨fun kind => absurd kind only.1,fun x => ih x (only.2 x)⟩

theorem onceBind {f : α → Prog Op Ans β} (first : Only (fun op => ¬K op) p) (second : ∀ a, Once K (f a)) :
    Once K (p.bind f) := by
  induction p with
  | done a => exact second a
  | call op next ih => exact ⟨fun kind => absurd kind first.1,fun x => ih x (first.2 x)⟩

theorem onceThen {f : α → Prog Op Ans β} (first : Once K p) (second : ∀ a, Only (fun op => ¬K op) (f a)) :
    Once K (p.bind f) := by
  induction p with
  | done a => exact onceOnly (second a)
  | call op next ih => exact ⟨fun kind x => onlyBind (first.1 kind x) second,fun x => ih x (first.2 x)⟩

theorem onceReaches [DecidablePred K] (once : Once K p) (reaches : Reaches p events q) :
    events.countP (fun e => K e.1) ≤ 1 := by
  induction reaches with
  | here => simp
  | @call op next events q x rest ih =>
    rw [List.countP_cons]
    by_cases kind : K op
    · have none : events.countP (fun e => decide (K e.1)) = 0 := by
        rw [List.countP_eq_zero]
        intro e mem
        simpa using onlyReaches (once.1 kind x) rest e mem
      simp [none,kind]
    · simpa [kind] using ih (once.2 x)

end Beginnings

section Layers

abbrev Service (ι : Type) (Op : Type) (Ans : Op → Type) (α : Type) := ι → Prog Op Ans α

/- The layer added last is the outermost. -/
def layered (layers : List (Service ι Op Ans α → Service ι Op Ans α)) (inner : Service ι Op Ans α) :
    Service ι Op Ans α :=
  layers.foldl (fun service layer => layer service) inner

end Layers

section Sharing

structure Party (ι : Type) (Op : Type) (Ans : Op → Type) (α : Type) where
  input : ι
  events : List (Event Op Ans)
  remaining : Prog Op Ans α

structure Sharing (σ : Type) (ι : Type) (Op : Type) (Ans : Op → Type) (α : Type) where
  world : σ
  parties : List (Party ι Op Ans α)

inductive Label (ι : Type) (Op : Type) (Ans : Op → Type) where
  | start (input : ι)
  | act (party : Nat) (event : Event Op Ans)

/- Any party may do its next operation at any time; one that is left alone for
good has been given up. -/
inductive Step (perform : σ → Event Op Ans → σ → Prop) (service : Service ι Op Ans α) :
    Sharing σ ι Op Ans α → Label ι Op Ans → Sharing σ ι Op Ans α → Prop where
  | start {s} (input : ι) :
      Step perform service s (.start input) { s with parties := s.parties ++ [⟨input,[],service input⟩] }
  | act {s : Sharing σ ι Op Ans α} {i p op next x w} (here : s.parties[i]? = some p)
      (waits : p.remaining = .call op next) (performed : perform s.world ⟨op,x⟩ w) :
      Step perform service s (.act i ⟨op,x⟩) ⟨w,s.parties.set i ⟨p.input,p.events ++ [⟨op,x⟩],next x⟩⟩

variable {perform : σ → Event Op Ans → σ → Prop} {service : Service ι Op Ans α} {s t : Sharing σ ι Op Ans α}

def Follows (service : Service ι Op Ans α) (p : Party ι Op Ans α) : Prop :=
  ∀ rest a, Trace p.remaining rest a → Trace (service p.input) (p.events ++ rest) a

theorem stepFollows {label : Label ι Op Ans} (step : Step perform service s label t)
    (all : ∀ p ∈ s.parties, Follows service p) : ∀ p ∈ t.parties, Follows service p := by
  cases step with
  | start input =>
    intro p mem
    rcases List.mem_append.mp mem with old | new
    · exact all p old
    · cases List.mem_singleton.mp new
      exact fun rest a trace => trace
  | @act i p op next x w here waits performed =>
    intro q mem
    rcases List.mem_or_eq_of_mem_set mem with old | rfl
    · exact all q old
    · intro rest a trace
      have whole := all p (List.mem_of_getElem? here) (⟨op,x⟩ :: rest) a (by rw [waits]; exact .call x trace)
      rwa [List.append_assoc]

theorem runFollows {labels : List (Label ι Op Ans)} {w : σ} (run : Run (Step perform service) ⟨w,[]⟩ labels s) :
    ∀ p ∈ s.parties, Follows service p :=
  Steps.runInvariant (I := fun s => ∀ p ∈ s.parties, Follows service p) stepFollows run (by simp)

theorem finishedTrace {p : Party ι Op Ans α} (follows : Follows service p) {a : α} (finished : p.remaining = .done a) :
    Trace (service p.input) p.events a := by
  have whole := follows [] a (by rw [finished]; exact .done a)
  rwa [List.append_nil] at whole

def performed (s : Sharing σ ι Op Ans α) : List (Event Op Ans) := s.parties.flatMap Party.events

theorem runPerformed {labels : List (Label ι Op Ans)} (run : Run (Step perform service) s labels t) :
    ∃ log, Run perform s.world log t.world ∧ (log ++ performed s).Perm (performed t) := by
  induction run with
  | nil s => exact ⟨[],.nil _,.refl _⟩
  | @cons s label m labels t first rest ih =>
    obtain ⟨log,run,account⟩ := ih
    cases first with
    | start input => exact ⟨log,run,by simpa [performed] using account⟩
    | @act i p op next x w here waits performed' =>
      refine ⟨⟨op,x⟩ :: log,.cons performed' run,?_⟩
      have before := Seq.flatMapPick (f := Party.events) here
      have after := Seq.flatMapSet (f := Party.events) here ⟨p.input,p.events ++ [⟨op,x⟩],next x⟩
      have grown : (performed ⟨w,s.parties.set i ⟨p.input,p.events ++ [⟨op,x⟩],next x⟩⟩).Perm
          (⟨op,x⟩ :: performed s) := by
        refine after.trans (List.Perm.trans ?_ (before.symm.cons _))
        rw [List.append_assoc]
        exact List.perm_middle
      exact (List.perm_middle.symm.trans (grown.symm.append_left log)).trans account

end Sharing
end Program
