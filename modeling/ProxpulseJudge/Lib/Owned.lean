import ProxpulseJudge.Lib.Program

/-! Programs that share a world while each holds something of its own: what it holds
changes with what it does, and is given back when the program is dropped. -/
namespace Owned
open Program (Prog Event Trace Service Only Reaches)
open Steps (Run)

variable {Op : Type} {Ans : Op → Type} {α β ι σ τ κ : Type}

/- What an operation does to the world and to the holdings of its party, how the world
moves by itself, and what is left of it when a party is dropped. -/
structure Rules (σ τ κ Op : Type) (Ans : Op → Type) where
  empty : τ
  perform : σ → τ → Event Op Ans → σ → τ → Prop
  internal : σ → κ → σ → Prop
  dropped : σ → τ → σ

structure Party (ι Op : Type) (Ans : Op → Type) (α τ : Type) where
  input : ι
  events : List (Event Op Ans)
  remaining : Option (Prog Op Ans α)
  own : τ

structure State (σ ι Op : Type) (Ans : Op → Type) (α τ : Type) where
  world : σ
  parties : List (Party ι Op Ans α τ)

inductive Label (ι κ Op : Type) (Ans : Op → Type) where
  | start (input : ι)
  | act (party : Nat) (event : Event Op Ans)
  | internal (move : κ)
  | drop (party : Nat)

inductive Step (rules : Rules σ τ κ Op Ans) (service : Service ι Op Ans α) :
    State σ ι Op Ans α τ → Label ι κ Op Ans → State σ ι Op Ans α τ → Prop where
  | start {s} (input : ι) : Step rules service s (.start input)
      { s with parties := s.parties ++ [⟨input,[],some (service input),rules.empty⟩] }
  | act {s : State σ ι Op Ans α τ} {i p op next x w own} (here : s.parties[i]? = some p)
      (waits : p.remaining = some (.call op next)) (performed : rules.perform s.world p.own ⟨op,x⟩ w own) :
      Step rules service s (.act i ⟨op,x⟩)
        ⟨w,s.parties.set i ⟨p.input,p.events ++ [⟨op,x⟩],some (next x),own⟩⟩
  | internal {s : State σ ι Op Ans α τ} {k w} (moved : rules.internal s.world k w) :
      Step rules service s (.internal k) { s with world := w }
  | drop {s : State σ ι Op Ans α τ} {i p op next} (here : s.parties[i]? = some p)
      (waits : p.remaining = some (.call op next)) :
      Step rules service s (.drop i)
        ⟨rules.dropped s.world p.own,s.parties.set i { p with remaining := none, own := rules.empty }⟩

variable {rules : Rules σ τ κ Op Ans} {service : Service ι Op Ans α} {s t : State σ ι Op Ans α τ}
  {label : Label ι κ Op Ans} {labels : List (Label ι κ Op Ans)}

def holdings (s : State σ ι Op Ans α τ) : List τ := s.parties.map Party.own

section Parties

theorem stepParties {P : Party ι Op Ans α τ → Prop}
    (start : ∀ input, P ⟨input,[],some (service input),rules.empty⟩)
    (act : ∀ p op next x w w' own, P p → p.remaining = some (.call op next) → rules.perform w p.own ⟨op,x⟩ w' own →
      P ⟨p.input,p.events ++ [⟨op,x⟩],some (next x),own⟩)
    (drop : ∀ p op next, P p → p.remaining = some (.call op next) → P { p with remaining := none, own := rules.empty })
    (step : Step rules service s label t) (all : ∀ p ∈ s.parties, P p) : ∀ p ∈ t.parties, P p := by
  cases step with
  | start input =>
    intro p mem
    rcases List.mem_append.mp mem with old | new
    · exact all p old
    · cases List.mem_singleton.mp new
      exact start input
  | act here waits performed =>
    intro p mem
    rcases List.mem_or_eq_of_mem_set mem with old | rfl
    · exact all p old
    · exact act _ _ _ _ _ _ _ (all _ (List.mem_of_getElem? here)) waits performed
  | internal moved => exact all
  | drop here waits =>
    intro p mem
    rcases List.mem_or_eq_of_mem_set mem with old | rfl
    · exact all p old
    · exact drop _ _ _ (all _ (List.mem_of_getElem? here)) waits

def Follows (service : Service ι Op Ans α) (p : Party ι Op Ans α τ) : Prop :=
  ∀ prog, p.remaining = some prog → ∀ rest a, Trace prog rest a → Trace (service p.input) (p.events ++ rest) a

theorem runFollows {w : σ} (run : Run (Step rules service) ⟨w,[]⟩ labels s) : ∀ p ∈ s.parties, Follows service p := by
  refine Steps.runInvariant (I := fun s => ∀ p ∈ s.parties, Follows service p) (fun step => ?_) run (by simp)
  refine stepParties (fun input prog same => ?_) (fun p op next x w w' own follows waits performed prog same => ?_)
    (fun p op next follows waits prog same => ?_) step
  · cases Option.some.inj same
    exact fun rest a trace => trace
  · cases Option.some.inj same
    intro rest a trace
    have whole := follows _ waits (⟨op,x⟩ :: rest) a (.call x trace)
    rwa [List.append_assoc]
  · contradiction

theorem finishedTrace {p : Party ι Op Ans α τ} (follows : Follows service p) {a : α}
    (finished : p.remaining = some (.done a)) : Trace (service p.input) p.events a := by
  have whole := follows _ finished [] a (.done a)
  rwa [List.append_nil] at whole

theorem runReaches {w : σ} (run : Run (Step rules service) ⟨w,[]⟩ labels s) : ∀ p ∈ s.parties,
    ∃ q, Reaches (service p.input) p.events q ∧ ∀ prog, p.remaining = some prog → q = prog := by
  refine Steps.runInvariant (I := fun s => ∀ p ∈ s.parties, ∃ q, Reaches (service p.input) p.events q ∧
    ∀ prog, p.remaining = some prog → q = prog) (fun step => ?_) run (by simp)
  refine stepParties (fun input => ⟨_,.here _,fun prog same => Option.some.inj same⟩)
    (fun p op next x w w' own reached waits performed => ?_) (fun p op next reached waits => ?_) step
  · obtain ⟨q,reaches,left⟩ := reached
    cases left _ waits
    exact ⟨next x,Program.reachesNext reaches x,fun prog same => Option.some.inj same⟩
  · obtain ⟨q,reaches,-⟩ := reached
    exact ⟨q,reaches,nofun⟩

end Parties

section Discipline
variable {allowed : τ → Op → Prop} {post : τ → α → Prop} {t' : τ} {p : Prog Op Ans α}

/- From these holdings on the program asks only for what is allowed, and ends with
holdings that fit its result. -/
def Keeps (rules : Rules σ τ κ Op Ans) (allowed : τ → Op → Prop) (post : τ → α → Prop) : τ → Prog Op Ans α → Prop
  | t,.done a => post t a
  | t,.call op next => allowed t op ∧ ∀ x w w' t', rules.perform w t ⟨op,x⟩ w' t' → Keeps rules allowed post t' (next x)

theorem keepsMono {post' : τ → α → Prop} (weaker : ∀ t a, post t a → post' t a) (keeps : Keeps rules allowed post t' p) :
    Keeps rules allowed post' t' p := by
  induction p generalizing t' with
  | done a => exact weaker t' a keeps
  | call op next ih => exact ⟨keeps.1,fun x w w' u performed => ih x (keeps.2 x w w' u performed)⟩

theorem keepsBind {f : α → Prog Op Ans β} {after : τ → β → Prop}
    (keeps : Keeps rules allowed (fun t a => Keeps rules allowed after t (f a)) t' p) :
    Keeps rules allowed after t' (p.bind f) := by
  induction p generalizing t' with
  | done a => exact keeps
  | call op next ih => exact ⟨keeps.1,fun x w w' u performed => ih x (keeps.2 x w w' u performed)⟩

structure Clock (rules : Rules σ τ κ Op Ans) (allowed : τ → Op → Prop) (I : τ → Prop) (K : Op → Prop) (timer : Op)
    (fired : Ans timer → Bool) (post : τ → α → Prop) (post' : τ → Option α → Prop) : Prop where
  looks : ∀ t, I t → allowed t timer
  still : ∀ w t x w' t', rules.perform w t ⟨timer,x⟩ w' t' → fired x = false → t' = t
  inside : ∀ w t op x w' t', K op → I t → rules.perform w t ⟨op,x⟩ w' t' → I t'
  ended : ∀ t a, post t a → post' t (some a)
  cut : ∀ w t x w' t', I t → rules.perform w t ⟨timer,x⟩ w' t' → fired x = true → post' t' none

variable {I : τ → Prop} {K : Op → Prop} {timer : Op} {fired : Ans timer → Bool} {post' : τ → Option α → Prop}

theorem keepsExpiring (clock : Clock rules allowed I K timer fired post post') (only : Only K p) (first : I t')
    (keeps : Keeps rules allowed post t' p) : Keeps rules allowed post' t' (p.expiring timer fired) := by
  induction p generalizing t' with
  | done a => exact clock.ended t' a keeps
  | call op next ih =>
    refine ⟨clock.looks t' first,fun x w w' u performed => ?_⟩
    dsimp only
    split
    · rename_i gone
      exact clock.cut w t' x w' u first performed gone
    · rename_i runs
      rw [clock.still w t' x w' u performed (by simpa using runs)]
      exact ⟨keeps.1,fun y v v' u' done => ih y (only.2 y) (clock.inside v t' op y v' u' only.1 first done)
        (keeps.2 y v v' u' done)⟩

theorem keepsRace (clock : Clock rules allowed I K timer fired post post') (only : Only K p) (first : I t')
    (keeps : Keeps rules allowed post t' p) : Keeps rules allowed post' t' (p.race timer fired) := by
  cases p with
  | done a => exact clock.ended t' a keeps
  | call op next =>
    exact ⟨keeps.1,fun y v v' u' done => keepsExpiring clock (only.2 y) (clock.inside v t' op y v' u' only.1 first done)
      (keeps.2 y v v' u' done)⟩

end Discipline

section Runs
variable {allowed : ι → τ → Op → Prop} {post : ι → τ → α → Prop} {R : ι → τ → List (Event Op Ans) → Prop} {w : σ}

structure Kept (rules : Rules σ τ κ Op Ans) (allowed : ι → τ → Op → Prop) (post : ι → τ → α → Prop)
    (R : ι → τ → List (Event Op Ans) → Prop) (p : Party ι Op Ans α τ) : Prop where
  disciplined : ∀ prog, p.remaining = some prog → Keeps rules (allowed p.input) (post p.input) p.own prog
  recorded : p.remaining.isSome = true → R p.input p.own p.events
  idle : p.remaining = none → p.own = rules.empty

theorem runKept (keeps : ∀ input, Keeps rules (allowed input) (post input) rules.empty (service input))
    (begins : ∀ input, R input rules.empty [])
    (records : ∀ input t op x w w' t' events, allowed input t op → R input t events → rules.perform w t ⟨op,x⟩ w' t' →
      R input t' (events ++ [⟨op,x⟩]))
    (run : Run (Step rules service) ⟨w,[]⟩ labels s) : ∀ p ∈ s.parties, Kept rules allowed post R p := by
  refine Steps.runInvariant (I := fun s => ∀ p ∈ s.parties, Kept rules allowed post R p) (fun step => ?_) run (by simp)
  refine stepParties (fun input => ?_) (fun p op next x v v' own kept waits performed => ?_)
    (fun p op next kept waits => ?_) step
  · exact ⟨fun prog same => Option.some.inj same ▸ keeps input,fun _ => begins input,fun gone => nomatch gone⟩
  · have here := kept.disciplined _ waits
    refine ⟨fun prog same => ?_,fun _ => ?_,fun gone => nomatch gone⟩
    · cases Option.some.inj same
      exact here.2 x v v' own performed
    · exact records _ _ _ _ _ _ _ _ here.1 (kept.recorded (by rw [waits]; rfl)) performed
  · exact ⟨fun prog same => (nomatch same),fun live => (nomatch live),fun _ => rfl⟩

theorem runHoldings {I : σ → List τ → Prop} (start : ∀ w ts, I w ts → I w (ts ++ [rules.empty]))
    (act : ∀ w t e w' t' ts i, ts[i]? = some t → rules.perform w t e w' t' → I w ts → I w' (ts.set i t'))
    (internal : ∀ w k w' ts, rules.internal w k w' → I w ts → I w' ts)
    (drop : ∀ w t ts i, ts[i]? = some t → I w ts → I (rules.dropped w t) (ts.set i rules.empty))
    (run : Run (Step rules service) ⟨w,[]⟩ labels s) (first : I w []) : I s.world (holdings s) := by
  refine Steps.runInvariant (I := fun s => I s.world (holdings s)) (fun {s l t} step fits => ?_) run first
  have own {i : Nat} {p : Party ι Op Ans α τ} (here : s.parties[i]? = some p) : (holdings s)[i]? = some p.own := by
    rw [holdings,List.getElem?_map,here]
    rfl
  cases step with
  | start input =>
    rw [holdings,List.map_append]
    exact start _ _ fits
  | act here waits performed =>
    rw [holdings,List.map_set]
    exact act _ _ _ _ _ _ _ (own here) performed fits
  | internal moved => exact internal _ _ _ _ moved fits
  | drop here waits =>
    rw [holdings,List.map_set]
    exact drop _ _ _ _ (own here) fits

inductive Moves (rules : Rules σ τ κ Op Ans) : σ → σ → Prop where
  | perform {w w' : σ} {t t' : τ} {e : Event Op Ans} (performed : rules.perform w t e w' t') : Moves rules w w'
  | internal {w w' : σ} {k : κ} (moved : rules.internal w k w') : Moves rules w w'
  | dropped (w : σ) (t : τ) : Moves rules w (rules.dropped w t)

theorem runWorld {I : σ → Prop} (moves : ∀ w w', Moves rules w w' → I w → I w')
    (run : Run (Step rules service) s labels t) (first : I s.world) : I t.world := by
  refine Steps.runInvariant (I := fun s => I s.world) (fun {s l t} step fits => ?_) run first
  cases step with
  | start input => exact fits
  | act here waits performed => exact moves _ _ (.perform performed) fits
  | internal moved => exact moves _ _ (.internal moved) fits
  | drop here waits => exact moves _ _ (.dropped _ _) fits

theorem runHeard {I : σ → Prop} {H : σ → Event Op Ans → Prop} (moves : ∀ w w', Moves rules w w' → I w → I w')
    (stays : ∀ w w' e, Moves rules w w' → H w e → H w' e)
    (tells : ∀ w t e w' t', I w → rules.perform w t e w' t' → H w' e)
    (run : Run (Step rules service) ⟨w,[]⟩ labels s) (first : I w) : ∀ p ∈ s.parties, ∀ e ∈ p.events, H s.world e := by
  refine (Steps.runInvariant (I := fun s => I s.world ∧ ∀ p ∈ s.parties, ∀ e ∈ p.events, H s.world e)
    (fun {s l t} step fits => ?_) run ⟨first,by simp⟩).2
  obtain ⟨fits,heard⟩ := fits
  have all {w' : σ} (move : Moves rules s.world w') : ∀ p ∈ s.parties, ∀ e ∈ p.events, H w' e :=
    fun p mem e said => stays _ _ e move (heard p mem e said)
  cases step with
  | start input =>
    refine ⟨fits,fun p mem e said => ?_⟩
    rcases List.mem_append.mp mem with old | new
    · exact heard p old e said
    · cases List.mem_singleton.mp new
      cases said
  | @act i p op next x w own here waits performed =>
    refine ⟨moves _ _ (.perform performed) fits,fun q mem e said => ?_⟩
    rcases List.mem_or_eq_of_mem_set mem with old | rfl
    · exact all (.perform performed) q old e said
    · rcases List.mem_append.mp said with before | now
      · exact all (.perform performed) p (List.mem_of_getElem? here) e before
      · cases List.mem_singleton.mp now
        exact tells _ _ _ _ _ fits performed
  | internal moved => exact ⟨moves _ _ (.internal moved) fits,all (.internal moved)⟩
  | @drop i p op next here waits =>
    refine ⟨moves _ _ (.dropped _ _) fits,fun q mem e said => ?_⟩
    rcases List.mem_or_eq_of_mem_set mem with old | rfl
    · exact all (.dropped _ _) q old e said
    · exact all (.dropped _ _) p (List.mem_of_getElem? here) e said

def Came (s : State σ ι Op Ans α τ) (input : ι) : Prop := ∃ p ∈ s.parties, p.input = input

theorem stepCame (step : Step rules service s label t) {input : ι} (came : Came s input) : Came t input := by
  obtain ⟨p,mem,rfl⟩ := came
  obtain ⟨i,here⟩ := List.getElem?_of_mem mem
  have set {j : Nat} {q q' : Party ι Op Ans α τ} (there : s.parties[j]? = some q) (same : q'.input = q.input) :
      ∃ r ∈ s.parties.set j q', r.input = p.input := by
    by_cases mine : j = i
    · subst mine
      rw [here] at there
      cases Option.some.inj there
      exact ⟨q',List.mem_of_getElem? (List.getElem?_set_self (List.getElem?_eq_some_iff.mp here).1),same⟩
    · exact ⟨p,List.mem_of_getElem? (by rw [List.getElem?_set_ne mine,here]),rfl⟩
  cases step with
  | start => exact ⟨p,List.mem_append_left _ mem,rfl⟩
  | act there => exact set there rfl
  | internal => exact ⟨p,mem,rfl⟩
  | drop there => exact set there rfl

/- What the world is made of: all it has it has from what somebody asked it for. -/
theorem runAsked {A : ι → Op → Prop} {I : (ι → Prop) → σ → Prop} (only : ∀ input, Only (A input) (service input))
    (mono : ∀ {C D : ι → Prop} {w}, (∀ input, C input → D input) → I C w → I D w)
    (act : ∀ {C w t e w' t' input}, C input → A input e.1 → rules.perform w t e w' t' → I C w → I C w')
    (internal : ∀ {C w k w'}, rules.internal w k w' → I C w → I C w') (drop : ∀ {C w t}, I C w → I C (rules.dropped w t))
    {w : σ} (run : Run (Step rules service) ⟨w,[]⟩ labels s) (first : I (fun _ => False) w) : I (Came s) s.world := by
  refine (Steps.runInvariant (I := fun s => I (Came s) s.world ∧ ∀ p ∈ s.parties, ∀ prog, p.remaining = some prog →
    Only (A p.input) prog) (fun {s l t} step fits => ⟨?_,?_⟩) run ⟨mono (fun _ => False.elim) first,by simp⟩).1
  · obtain ⟨fits,asks⟩ := fits
    refine mono (fun _ => stepCame step) ?_
    cases step with
    | start input => exact fits
    | act here waits performed =>
      have mem := List.mem_of_getElem? here
      exact act ⟨_,mem,rfl⟩ (asks _ mem _ waits).1 performed fits
    | internal moved => exact internal moved fits
    | drop here waits => exact drop fits
  · refine stepParties (fun input prog same => ?_) (fun p op next x v v' own asks waits performed prog same => ?_)
      (fun p op next asks waits => nofun) step fits.2
    · cases Option.some.inj same
      exact only input
    · cases Option.some.inj same
      exact (asks _ waits).2 x

inductive Seen {υ : Type} (P : υ → Event Op Ans → υ → Prop) (Q : υ → κ → υ → Prop) : υ → Event Op Ans ⊕ κ → υ → Prop where
  | act {v e v'} (performed : P v e v') : Seen P Q v (.inl e) v'
  | move {v k v'} (moved : Q v k v') : Seen P Q v (.inr k) v'

def Label.move? : Label ι κ Op Ans → Option κ
  | .internal k => some k
  | _ => none

/- A part of the world that no drop moves sees one log of what everybody did. -/
theorem runLog {υ : Type} (view : σ → υ) {P : υ → Event Op Ans → υ → Prop} {Q : υ → κ → υ → Prop}
    (acts : ∀ w t e w' t', rules.perform w t e w' t' → P (view w) e (view w'))
    (moves : ∀ w k w', rules.internal w k w' → Q (view w) k (view w')) (drops : ∀ w t, view (rules.dropped w t) = view w)
    (run : Run (Step rules service) s labels t) : ∃ log, Run (Seen P Q) (view s.world) log (view t.world) ∧
      (log.filterMap Sum.getLeft? ++ s.parties.flatMap Party.events).Perm (t.parties.flatMap Party.events) ∧
      log.filterMap Sum.getRight? = labels.filterMap Label.move? := by
  induction run with
  | nil s => exact ⟨[],.nil _,.refl _,rfl⟩
  | @cons s label m labels t first rest ih =>
    obtain ⟨log,run,account,moved⟩ := ih
    cases first with
    | start input => exact ⟨log,run,by simpa using account,moved⟩
    | @act i p op next x w' own here waits performed =>
      refine ⟨.inl ⟨op,x⟩ :: log,.cons (.act (acts _ _ _ _ _ performed)) run,?_,moved⟩
      have before := Seq.flatMapPick (f := Party.events) here
      have after := Seq.flatMapSet (f := Party.events) here ⟨p.input,p.events ++ [⟨op,x⟩],some (next x),own⟩
      have grown := after.trans (List.Perm.trans (by rw [List.append_assoc]; exact List.perm_middle) (before.symm.cons ⟨op,x⟩))
      exact (List.perm_middle.symm.trans (grown.symm.append_left _)).trans account
    | @internal k w moved' =>
      exact ⟨.inr k :: log,.cons (.move (moves _ _ _ moved')) run,account,congrArg (k :: ·) moved⟩
    | @drop i p op next here waits =>
      refine ⟨log,drops _ _ ▸ run,List.Perm.trans (List.Perm.append_left _ ?_) account,moved⟩
      have before := Seq.flatMapPick (f := Party.events) here
      exact before.trans (Seq.flatMapSet (f := Party.events) here { p with remaining := none, own := rules.empty }).symm

end Runs

section Progress
variable {G : State σ ι Op Ans α τ → Prop} {Q : State σ ι Op Ans α τ → Label ι κ Op Ans → Prop} {i : Nat}
  {p : Party ι Op Ans α τ}

def Within (rules : Rules σ τ κ Op Ans) (service : Service ι Op Ans α) (Q : State σ ι Op Ans α τ → Label ι κ Op Ans → Prop)
    (s : State σ ι Op Ans α τ) (label : Label ι κ Op Ans) (t : State σ ι Op Ans α τ) : Prop :=
  Step rules service s label t ∧ Q s label

/- When whatever a party asks for can be had after some moves of the world, the party
comes to its end, and nobody else has to do anything for it. -/
theorem runEnds (keeps : ∀ {s t label}, Step rules service s label t → G s → G t) (mine : ∀ s e, Q s (.act i e))
    (ready : ∀ {s p op next}, G s → s.parties[i]? = some p → p.remaining = some (.call op next) →
      ∃ moves w x w' t', Run (Within rules service Q) s moves { s with world := w } ∧
        rules.perform w p.own ⟨op,x⟩ w' t')
    {prog : Prog Op Ans α} (good : G s) (here : s.parties[i]? = some p) (left : p.remaining = some prog) :
    ∃ labels t q a, Run (Within rules service Q) s labels t ∧ t.parties[i]? = some q ∧
      q.input = p.input ∧ q.remaining = some (.done a) := by
  induction prog generalizing s p with
  | done a => exact ⟨[],s,p,a,.nil s,here,rfl,left⟩
  | call op next ih =>
    obtain ⟨moves,w,x,w',own,run,performed⟩ := ready good here left
    have acts : Step rules service { s with world := w } (.act i ⟨op,x⟩)
        ⟨w',s.parties.set i ⟨p.input,p.events ++ [⟨op,x⟩],some (next x),own⟩⟩ := .act here left performed
    have there := List.getElem?_set_self (a := (⟨p.input,p.events ++ [⟨op,x⟩],some (next x),own⟩ : Party ι Op Ans α τ))
      (List.getElem?_eq_some_iff.mp here).1
    have reached := Steps.runInvariant (I := G) (fun step => keeps step.1) run good
    obtain ⟨labels,t,q,a,more,found,input,ended⟩ := ih x (keeps acts reached) there rfl
    exact ⟨_,t,q,a,Steps.runAppend run (.cons ⟨acts,mine _ _⟩ more),found,input,ended⟩

end Progress
end Owned
