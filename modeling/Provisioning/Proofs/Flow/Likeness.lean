import Mathlib.Tactic.Common
import Provisioning.Flow.Run

/-!
# Runs that are alike

Two runs are compared in what is chosen to be compared: the machines up to a relation, the statuses,
and a part of the events and of the report. Nodes that run alike make up lists, groups and flows
that do, because what they leave behind is undone alike as well.

What has been done is undone last first, so that each piece of work is met by a machine that is, in
some respect, as the work left it. A likeness has a view of machines for this respect. Undoing work
has to lead the view back to what it was before the work, and then the work before is met as it was
left.
-/

namespace Provisioning

variable {σ β : Type}

/-- What is compared of two runs. -/
structure Likeness (σ β : Type) where
  /-- Machines that are alike. -/
  machines : Machine σ → Machine σ → Prop
  /-- What work that is undone has to find as it left it. -/
  view : Machine σ → β
  /-- The events that are compared. -/
  told : Event → Bool
  /-- The entries of the report that are compared. -/
  listed : StageReport → Bool

namespace Likeness

variable (l : Likeness σ β)

/-! ## Undoing -/

/-- Rollbacks that are alike. -/
structure Rollbacks (r r' : Rollback σ) : Prop where
  complete : r.complete = r'.complete
  entries : r.entries.filter l.listed = r'.entries.filter l.listed
  events : r.events.filter l.told = r'.events.filter l.told
  machine : l.machines r.machine r'.machine

/-- Work that is undone alike wherever the view is the second one, which leads to the first one. -/
def Undone (before after : β) (cs cs' : List (Completed σ)) : Prop :=
  ∀ ⦃m m' : Machine σ⦄, l.machines m m' → l.view m = after →
    l.Rollbacks (Completed.rollbackAll m cs) (Completed.rollbackAll m' cs') ∧
      l.view (Completed.rollbackAll m cs).machine = before

variable {l} {a b c : β} {cs cs' ds ds' : List (Completed σ)}

theorem Undone.nil : l.Undone a a [] [] := fun _ _ alike here => ⟨⟨rfl, rfl, rfl, alike⟩, here⟩

theorem rollbackAll_append (m : Machine σ) (cs ds : List (Completed σ)) :
    Completed.rollbackAll m (cs ++ ds)
      = (Completed.rollbackAll m cs).andThen fun m => Completed.rollbackAll m ds := by
  induction cs generalizing m with
  | nil => simp [Completed.rollbackAll, Rollback.none, Rollback.andThen]
  | cons c cs ih =>
    simp only [List.cons_append, Completed.rollbackAll, Rollback.andThen, ih, Bool.and_assoc,
      List.append_assoc]

/-- What was done later is undone first. -/
theorem Undone.append (later : l.Undone b c cs cs') (earlier : l.Undone a b ds ds') :
    l.Undone a c (cs ++ ds) (cs' ++ ds') := by
  intro m m' alike here
  obtain ⟨first, back⟩ := later alike here
  obtain ⟨second, start⟩ := earlier first.machine back
  rw [rollbackAll_append, rollbackAll_append]
  refine ⟨⟨?_, ?_, ?_, second.machine⟩, start⟩
  · simp only [Rollback.andThen, first.complete, second.complete]
  · simp only [Rollback.andThen, List.filter_append, first.entries, second.entries]
  · simp only [Rollback.andThen, List.filter_append, first.events, second.events]

theorem rollbackAll_flow (m : Machine σ) (info : FlowInfo) (cs : List (Completed σ)) :
    Completed.rollbackAll m [.flow info cs]
      = { Completed.rollbackAll m cs with
          events := (Completed.rollbackAll m cs).events
            ++ [.flowFinish info (Rollback.status (Completed.rollbackAll m cs).complete)] } := by
  simp [Completed.rollbackAll, Completed.rollback, Rollback.andThen, Rollback.none]

theorem Undone.flow (info : FlowInfo) (h : l.Undone a b cs cs') :
    l.Undone a b [.flow info cs] [.flow info cs'] := by
  intro m m' alike here
  obtain ⟨r, start⟩ := h alike here
  rw [rollbackAll_flow, rollbackAll_flow]
  refine ⟨⟨r.complete, r.entries, ?_, r.machine⟩, start⟩
  simp only [List.filter_append, r.events, r.complete]

/-- What a group leaves. -/
def ofGroup (cs : List (Completed σ)) : Option (Completed σ) :=
  if cs.isEmpty then none else some (.parallel cs)

theorem rollbackAll_ofGroup (m : Machine σ) (cs : List (Completed σ)) :
    Completed.rollbackAll m (ofGroup cs).toList = Completed.rollbackAll m cs := by
  cases cs with
  | nil => rfl
  | cons c cs =>
    simp [ofGroup, Completed.rollbackAll, Completed.rollback, Rollback.andThen, Rollback.none]

theorem Undone.ofGroup (h : l.Undone a b cs cs') :
    l.Undone a b (ofGroup cs).toList (ofGroup cs').toList := by
  intro m m' alike here
  rw [rollbackAll_ofGroup, rollbackAll_ofGroup]
  exact h alike here

/-! ## Nodes -/

variable (l) in
/-- Runs of nodes that are alike. -/
structure Runs (r r' : NodeRun σ) : Prop where
  status : r.status = r'.status
  entries : r.entries.filter l.listed = r'.entries.filter l.listed
  events : r.events.filter l.told = r'.events.filter l.told
  machine : l.machines r.machine r'.machine

variable (l) in
/-- Runs of nodes that are alike, from a machine with the view. Whatever is left behind, by a failed
node too, can be undone. -/
structure Nodes (before : β) (r r' : NodeRun σ) : Prop extends l.Runs r r' where
  undone : l.Undone before (l.view r.machine) r.completed.toList r'.completed.toList

variable (l) in
/-- Nodes that run alike, and are announced and skipped alike. -/
structure Alike (info : FlowInfo) (path : String) (node node' : FlowNode (Stage σ)) : Prop where
  run : ∀ {m m' : Machine σ}, l.machines m m' →
    l.Nodes (l.view m) (node.run info path m) (node'.run info path m')
  announce : (node.announce info path).filter l.told = (node'.announce info path).filter l.told
  skip : ∀ reason, (node.skip info path reason).filter l.told
    = (node'.skip info path reason).filter l.told

variable (l) in
/-- A call that does not tell machines that are alike apart, and keeps the view. -/
def Respects (call : StageContext → σ → StageStep σ) : Prop :=
  ∀ ⦃m m' : Machine σ⦄ (info : StageInfo) (scope : Scope), l.machines m m' →
    (call (m.context info scope) m.world).outcome
        = (call (m'.context info scope) m'.world).outcome ∧
      l.machines (m.after info.id (call (m.context info scope) m.world))
        (m'.after info.id (call (m'.context info scope) m'.world)) ∧
      l.view (m.after info.id (call (m.context info scope) m.world)) = l.view m

variable (l) in
/-- A stage whose calls do not tell machines that are alike apart, and keep the view. -/
structure Indifferent (s : Stage σ) : Prop where
  execute : l.Respects s.execute
  cancel : ∀ call, s.cancel = some call → l.Respects call

theorem Undone.stage {s : Stage σ} (h : l.Indifferent s) (info : StageInfo) (scope : Scope) :
    l.Undone a a [.stage s info scope] [.stage s info scope] := by
  intro m m' alike here
  cases hc : s.cancel with
  | none =>
    simp only [Completed.rollbackAll, Completed.rollback, Completed.rollbackStage, hc,
      Rollback.none, Rollback.andThen]
    exact ⟨⟨rfl, rfl, rfl, alike⟩, here⟩
  | some call =>
    obtain ⟨outcome, machine, kept⟩ := h.cancel call hc info scope alike
    simp only [Completed.rollbackAll, Completed.rollback, Completed.rollbackStage, hc,
      Rollback.none, Rollback.andThen, ← outcome]
    cases (call (m.context info scope) m.world).outcome with
    | ok done => exact ⟨⟨rfl, rfl, rfl, machine⟩, kept.trans here⟩
    | error e => exact ⟨⟨rfl, rfl, rfl, machine⟩, kept.trans here⟩

theorem Alike.stage {s : Stage σ} {info : FlowInfo} {path : String} (h : l.Indifferent s) :
    l.Alike info path (.stage s) (.stage s) := by
  refine ⟨fun {m m'} alike => ?_, rfl, fun _ => rfl⟩
  obtain ⟨outcome, machine, kept⟩ := h.execute (info.stage path s.name) info.scope alike
  simp only [FlowNode.run, Stage.run, ← outcome]
  cases (s.execute (m.context (info.stage path s.name) info.scope) m.world).outcome with
  | ok done =>
    refine ⟨⟨rfl, rfl, rfl, machine⟩, ?_⟩
    show l.Undone _ (l.view (m.after _ _)) _ _
    rw [kept]
    exact Undone.stage h _ _
  | error e =>
    refine ⟨⟨rfl, rfl, rfl, machine⟩, ?_⟩
    show l.Undone _ (l.view (m.after _ _)) _ _
    rw [kept]
    exact Undone.nil

/-! ## Groups -/

variable (l) in
/-- Children of groups that run alike, behind others that have run. -/
structure Group (info : FlowInfo) (path : String) (ns ns' : List (FlowNode (Stage σ))) : Prop where
  run : ∀ {m m' : Machine σ} {a : β} {cs cs' : List (Completed σ)} (status : ExecutionStatus),
    l.machines m m' → l.Undone a (l.view m) cs cs' →
    let r := FlowNode.runChildren info path m status cs ns
    let r' := FlowNode.runChildren info path m' status cs' ns'
    l.Nodes a { r with completed := ofGroup r.completed }
      { r' with completed := ofGroup r'.completed }
  announce : (FlowNode.announceAll info path ns).filter l.told
    = (FlowNode.announceAll info path ns').filter l.told
  skip : ∀ reason, (FlowNode.skipAll info path reason ns).filter l.told
    = (FlowNode.skipAll info path reason ns').filter l.told

variable {info : FlowInfo} {path : String} {n n' : FlowNode (Stage σ)}
  {ns ns' : List (FlowNode (Stage σ))}

theorem Group.nil : l.Group info path [] [] :=
  ⟨fun _ alike undone => ⟨⟨rfl, rfl, rfl, alike⟩, undone.ofGroup⟩, rfl, fun _ => rfl⟩

theorem Group.cons (first : l.Alike info path n n') (rest : l.Group info path ns ns') :
    l.Group info path (n :: ns) (n' :: ns') := by
  constructor
  · intro m m' a cs cs' status alike undone
    have one := first.run alike
    have others := rest.run (groupStatus status (n.run info path m).status) one.machine
      (one.undone.append undone)
    simp only [FlowNode.runChildren, ← one.status]
    refine ⟨⟨others.status, ?_, ?_, others.machine⟩, others.undone⟩
    · simp only [List.filter_append, one.entries, others.entries]
    · simp only [List.filter_append, one.events, others.events]
  · simp only [FlowNode.announceAll, List.filter_append, first.announce, rest.announce]
  · intro reason
    simp only [FlowNode.skipAll, List.filter_append, first.skip, rest.skip]

theorem Alike.parallel {name : String} (h : l.Group info (FlowNode.childPath path name) ns ns') :
    l.Alike info path (.parallel name ns) (.parallel name ns') := by
  constructor
  · intro m m' alike
    have r := h.run .finished alike Undone.nil
    simp only [FlowNode.run]
    exact r
  · simp only [FlowNode.announce]
    exact h.announce
  · intro reason
    simp only [FlowNode.skip]
    exact h.skip reason

/-! ## Sequences -/

variable (l) in
/-- Ends of sequences that are alike. A flow that goes on after errors does not undo anything. -/
inductive Endings (strategy : ExecutionStrategy) (before after : β) :
    SequenceEnd σ → SequenceEnd σ → Prop where
  | finished {cs cs' : List (Completed σ)} (undone : l.Undone before after cs cs') :
    Endings strategy before after (.ran false cs) (.ran false cs')
  | failed {cs cs' : List (Completed σ)} (goesOn : strategy = .ignoreOnError) :
    Endings strategy before after (.ran true cs) (.ran true cs')
  | stopped {undone : Bool} (back : after = before) :
    Endings strategy before after (.stopped undone) (.stopped undone)

variable (l) in
/-- Runs of sequences that are alike, behind work that leads the view back to the given one. -/
structure Sequences (strategy : ExecutionStrategy) (before : β) (r r' : SequenceRun σ) : Prop where
  ending : l.Endings strategy before (l.view r.machine) r.ending r'.ending
  entries : r.entries.filter l.listed = r'.entries.filter l.listed
  events : r.events.filter l.told = r'.events.filter l.told
  machine : l.machines r.machine r'.machine

variable (l) in
/-- Nodes of flows that run alike one after another, whether or not a node has failed before. -/
structure Lists (strategy : ExecutionStrategy) (info : FlowInfo) (path : String)
    (ns ns' : List (FlowNode (Stage σ))) : Prop where
  run : ∀ {m m' : Machine σ} {a : β} {cs cs' : List (Completed σ)},
    l.machines m m' → l.Undone a (l.view m) cs cs' →
    l.Sequences strategy a (FlowNode.runSequence strategy info path m cs ns)
      (FlowNode.runSequence strategy info path m' cs' ns')
  goOn : strategy = .ignoreOnError →
    ∀ {m m' : Machine σ} (a : β) (cs cs' : List (Completed σ)), l.machines m m' →
    l.Sequences strategy a (FlowNode.runSequence strategy info path m cs ns).withFailure
      (FlowNode.runSequence strategy info path m' cs' ns').withFailure
  announce : (FlowNode.announceAll info path ns).filter l.told
    = (FlowNode.announceAll info path ns').filter l.told
  skip : ∀ reason, (FlowNode.skipAll info path reason ns).filter l.told
    = (FlowNode.skipAll info path reason ns').filter l.told

variable {strategy : ExecutionStrategy}

theorem Nodes.cons {r r' : NodeRun σ} {rest rest' : SequenceRun σ}
    (first : l.Nodes b r r') (later : l.Sequences strategy a rest rest') :
    l.Sequences strategy a (.cons r rest) (.cons r' rest') := by
  refine ⟨later.ending, ?_, ?_, later.machine⟩
  · simp only [SequenceRun.cons, List.filter_append, first.entries, later.entries]
  · simp only [SequenceRun.cons, List.filter_append, first.events, later.events]

theorem withFailure_cons (r : NodeRun σ) (rest : SequenceRun σ) :
    (SequenceRun.cons r rest).withFailure = .cons r rest.withFailure := by
  obtain ⟨ending, entries, events, machine⟩ := rest
  cases ending <;> rfl

theorem withFailure_withFailure (r : SequenceRun σ) :
    r.withFailure.withFailure = r.withFailure := by
  obtain ⟨ending, entries, events, machine⟩ := r
  cases ending <;> rfl

theorem Lists.nil : l.Lists strategy info path [] [] := by
  constructor
  · intro m m' a cs cs' alike undone
    simp only [FlowNode.runSequence]
    exact ⟨.finished undone, rfl, rfl, alike⟩
  · intro goesOn m m' a cs cs' alike
    simp only [FlowNode.runSequence]
    exact ⟨.failed goesOn, rfl, rfl, alike⟩
  · rfl
  · exact fun _ => rfl

/-- A node that fails stops a flow that cancels: what was done is undone, and the nodes after it are
skipped. -/
theorem Nodes.stopped {r r' : NodeRun σ} {cs cs' : List (Completed σ)}
    (failed : l.Nodes b r r') (undone : l.Undone a b cs cs')
    (skip : ∀ reason, (FlowNode.skipAll info path reason ns).filter l.told
      = (FlowNode.skipAll info path reason ns').filter l.told) :
    l.Sequences strategy a (info.stopped path r cs ns) (info.stopped path r' cs' ns') := by
  obtain ⟨rollback, back⟩ := (failed.undone.append undone) failed.machine rfl
  unfold FlowInfo.stopped
  simp only [failed.status, rollback.complete]
  refine ⟨.stopped back, ?_, ?_, rollback.machine⟩
  · simp only [List.filter_append, failed.entries, rollback.entries]
  · simp only [List.filter_append, failed.events, rollback.events, skip]

theorem Lists.cons (first : l.Alike info path n n') (rest : l.Lists strategy info path ns ns') :
    l.Lists strategy info path (n :: ns) (n' :: ns') := by
  constructor
  · intro m m' a cs cs' alike undone
    have one := first.run alike
    simp only [FlowNode.runSequence, ← one.status]
    split
    · cases strategy with
      | ignoreOnError => exact one.cons (rest.goOn rfl a cs cs' one.machine)
      | cancelOnError => exact one.stopped undone rest.skip
    · exact one.cons (rest.run one.machine (one.undone.append undone))
  · intro goesOn m m' a cs cs' alike
    have one := first.run alike
    subst goesOn
    simp only [FlowNode.runSequence, ← one.status]
    split
    · rw [withFailure_cons, withFailure_cons, withFailure_withFailure, withFailure_withFailure]
      exact one.cons (rest.goOn rfl a cs cs' one.machine)
    · rw [withFailure_cons, withFailure_cons]
      exact one.cons (rest.goOn rfl a _ _ one.machine)
  · simp only [FlowNode.announceAll, List.filter_append, first.announce, rest.announce]
  · intro reason
    simp only [FlowNode.skipAll, List.filter_append, first.skip, rest.skip]

/-! ## Flows -/

theorem Sequences.ended {r r' : SequenceRun σ} (h : l.Sequences strategy a r r') :
    l.Runs (info.ended r) (info.ended r') := by
  obtain ⟨ending, entries, events, machine⟩ := r
  obtain ⟨ending', entries', events', machine'⟩ := r'
  obtain ⟨ends, sameEntries, sameEvents, alike⟩ := h
  unfold FlowInfo.ended
  cases ends <;>
  · refine ⟨rfl, sameEntries, ?_, alike⟩
    simp only [List.filter_cons, List.filter_append, sameEvents]

/-- What a flow that cancels leaves behind can be undone, and so can what any flow leaves behind if
the view does not tell machines apart. -/
theorem Sequences.ended_undone {r r' : SequenceRun σ} (h : l.Sequences strategy a r r')
    (cancels : strategy = .cancelOnError ∨ Subsingleton β) :
    l.Nodes a (info.ended r) (info.ended r') := by
  refine ⟨h.ended, ?_⟩
  obtain ⟨ending, entries, events, machine⟩ := r
  obtain ⟨ending', entries', events', machine'⟩ := r'
  obtain ⟨ends, -, -, -⟩ := h
  unfold FlowInfo.ended
  cases ends with
  | finished undone => exact undone.flow info
  | stopped back =>
    show l.Undone a (l.view machine) [] []
    rw [show l.view machine = a from back]
    exact Undone.nil
  | failed goesOn =>
    show l.Undone a (l.view machine) [] []
    rcases cancels with cancels | single
    · rw [cancels] at goesOn
      cases goesOn
    · rw [Subsingleton.elim (l.view machine) a]
      exact Undone.nil

theorem Runs.skipped {m m' : Machine σ} {reason : String} (alike : l.machines m m')
    (skip : ∀ reason, (FlowNode.skipAll info path reason ns).filter l.told
      = (FlowNode.skipAll info path reason ns').filter l.told) :
    l.Runs (info.skipped path reason ns m) (info.skipped path reason ns' m') := by
  refine ⟨rfl, rfl, ?_, alike⟩
  simp only [FlowInfo.skipped, List.filter_append, skip]

theorem Alike.flow {header : FlowHeader}
    (h : l.Lists header.strategy (info.child header) (FlowNode.childPath path header.id) ns ns')
    (cancels : header.strategy = .cancelOnError ∨ Subsingleton β) :
    l.Alike info path (.flow header ns) (.flow header ns') := by
  constructor
  · intro m m' alike
    simp only [FlowNode.run]
    split
    · exact ⟨.skipped alike h.skip, Undone.nil⟩
    · exact (h.run alike Undone.nil).ended_undone cancels
  · simp only [FlowNode.announce, List.filter_cons, h.announce]
  · intro reason
    simp only [FlowNode.skip, List.filter_append, h.skip]

theorem flow_runs {f f' : Flow (Stage σ)} (header : f'.header = f.header)
    (h : l.Lists f.header.strategy (.root f.header) f.id f.nodes f'.nodes) {w w' : σ}
    (alike : l.machines ⟨w, .empty⟩ ⟨w', .empty⟩) : l.Runs (f.runNodes w) (f'.runNodes w') := by
  unfold Flow.runNodes Flow.id
  rw [header]
  dsimp only
  split
  · exact .skipped alike h.skip
  · exact (h.run alike Undone.nil).ended

theorem flow_announce {f f' : Flow (Stage σ)} (header : f'.header = f.header)
    (h : l.Lists f.header.strategy (.root f.header) f.id f.nodes f'.nodes) :
    f.announce.filter l.told = f'.announce.filter l.told := by
  have announced := h.announce
  unfold Flow.id at announced
  unfold Flow.announce Flow.id
  simp only [header, List.filter_cons, announced]

/-! ## Nodes with themselves -/

variable {α : Type} {g : α → Stage σ}

mutual

/-- A node whose stages do not tell machines that are alike apart runs alike. -/
theorem alike_map [Subsingleton β] {info : FlowInfo} {path : String} (h : ∀ s, l.Indifferent (g s))
    (node : FlowNode α) : l.Alike info path (node.map g) (node.map g) := by
  cases node with
  | stage s => exact .stage (h s)
  | flow header nodes => exact .flow (lists_map h nodes) (.inr inferInstance)
  | parallel name children => exact .parallel (group_map h children)

theorem lists_map [Subsingleton β] {strategy : ExecutionStrategy} {info : FlowInfo} {path : String}
    (h : ∀ s, l.Indifferent (g s)) (nodes : List (FlowNode α)) :
    l.Lists strategy info path (FlowNode.mapAll g nodes) (FlowNode.mapAll g nodes) := by
  cases nodes with
  | nil => exact .nil
  | cons node rest => exact .cons (alike_map h node) (lists_map h rest)

theorem group_map [Subsingleton β] {info : FlowInfo} {path : String} (h : ∀ s, l.Indifferent (g s))
    (nodes : List (FlowNode α)) :
    l.Group info path (FlowNode.mapAll g nodes) (FlowNode.mapAll g nodes) := by
  cases nodes with
  | nil => exact .nil
  | cons node rest => exact .cons (alike_map h node) (group_map h rest)

end

end Likeness

end Provisioning
