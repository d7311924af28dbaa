import LLBuild.Core.Accounting

/-!
# The life of a rule in a build

During a build the task of a rule is created once at most, a rule that is complete stays
complete until the build ends, and the engine never uses a task that is not in progress.
This holds for all builds, the ones that are cancelled and the ones in which cycles are
broken as well.
-/

namespace LLBuild

variable {Key Value : Type} [LinearOrder Key] [DecidableEq Value] [Inhabited Value]
variable {client : Client Key Value} {k : Key}

theorem Moves.stage_complete {m m' : Moment Key Value} (h : Moves client m m')
    (hs : m.Sound client) (hk : (m.ledger client).stage k = .complete) :
  (m'.ledger client).stage k = .complete
  := Moves.invariant (P := fun m => (m.ledger client).stage k = .complete)
      (fun _ _ hs hk h => hs.stage_complete h hk) h hs hk

omit [DecidableEq Value] in
/-- A rule that is complete is not cancelled. -/
theorem Engine.ruleInfo_cancelRemainingTasks_of_isComplete {s : Engine Key Value}
    {unrecorded : Option Key} (hk : (s.ruleInfo client k).IsComplete s.currentEpoch)
    (hu : unrecorded ≠ some k) :
  (s.cancelRemainingTasks client unrecorded).ruleInfo client k = s.ruleInfo client k
  := by
  have hsame : (unrecorded.elim s (s.setState client · .incomplete)).ruleInfo client k
      = s.ruleInfo client k := by
    cases unrecorded with
    | none => rfl
    | some k' =>
      have hne : k ≠ k' := fun h => hu (congrArg some h.symm)
      rw [Option.elim_some, ruleInfo_setState, if_neg hne]
  obtain ⟨hcomplete, -⟩ := hk
  rw [ruleInfo_cancelRemainingTasks, hsame, RuleInfo.setCancelled]
  simp [hcomplete]

namespace Execution

/-- What holds of the tasks in every state of a build. -/
structure Lawful (client : Client Key Value) (e : Execution Key Value) : Prop where
  created : ∀ k, e.engine.events.countP (Event.isCreateTask k) ≤ 1
  failed : ∀ k, e.phase = .cancelling (some k) → (client.dbError (.setRuleResult k)).isSome

variable {e e' : Execution Key Value}

theorem Lawful.step {a : Action Key} (hl : e.Lawful client)
    (h : e.Inv client) (hstep : e.step client a = some e') (htrap : e'.engine.trap = none) :
  e'.Lawful client
  := by
  obtain ⟨hlive, hrecorded, hmoves⟩ | ⟨k, s, hlive, hk, hmoves, hunrecorded, herror⟩
    | ⟨hlive, hcancels⟩ | hdangling | hpast := h.step_cases hstep
  · have hs := Moves.sound hmoves (h.sound hlive)
    exact ⟨hs.balanced.created, fun k hk => absurd hk (hrecorded k)⟩
  · have hs := Moves.sound hmoves (h.sound hlive)
    refine ⟨?_, ?_⟩
    · intro k'
      obtain ⟨message, hevents⟩ := hunrecorded.events
      rw [hevents]
      exact hs.balanced.created k'
    · intro k' hk'
      rw [hk] at hk'
      cases hk'
      exact herror
  · refine ⟨?_, ?_⟩
    · rw [hcancels.events.1]
      exact hl.created
    · cases hcancels with
      | cancelTasks unrecorded hp ho => exact nofun
      | _ => exact hl.failed
  · rw [htrap] at hdangling
    cases hdangling
  · rw [htrap] at hpast
    cases hpast

/-- A rule that is complete stays complete, unless the build ends and the result of the rule
could not be recorded. -/
theorem Lawful.isComplete_step {a : Action Key} (hl : e.Lawful client) (h : e.Inv client)
    (hstep : e.step client a = some e') (htrap : e'.engine.trap = none)
    (hk : (e.engine.ruleInfo client k).IsComplete e.engine.currentEpoch) :
  (e'.engine.ruleInfo client k).IsComplete e'.engine.currentEpoch
    ∨ e'.phase = .returned false ∧ (client.dbError (.setRuleResult k)).isSome
  := by
  have hmoves {m : Moment Key Value} (hlive : e.IsLive) (hmoves : Moves client e.moment m) :
      (m.engine.ruleInfo client k).IsComplete m.engine.currentEpoch :=
    RuleInfo.isComplete_iff_stage.mpr (Moves.stage_complete hmoves (h.sound hlive)
      (RuleInfo.isComplete_iff_stage.mp hk))
  obtain ⟨hlive, -, hmoves'⟩ | ⟨k', s, hlive, -, hmoves', hunrecorded, -⟩ | ⟨hlive, hcancels⟩
    | hdangling | hpast := h.step_cases hstep
  · exact .inl (hmoves hlive hmoves')
  · left
    rw [hunrecorded.ruleInfo, hunrecorded.currentEpoch]
    exact hmoves hlive hmoves'
  · cases hcancels with
    | complete k' t hstate hr =>
      left
      have hne : k ≠ k' := by
        rintro rfl
        rw [RuleInfo.IsComplete, hstate] at hk
        cases hk.1
      rw [Engine.ruleInfo_finishTask e.engine hne]
      have hepoch := Moves.currentEpoch (Engine.finishTask_spec e.moment k' t hstate hr)
      exact hepoch ▸ hk
    | cancel | drain => exact .inl hk
    | cancelTasks unrecorded hp ho =>
      by_cases hu : unrecorded = some k
      · exact .inr ⟨rfl, hl.failed k (hp.trans (by rw [hu]))⟩
      · left
        rw [Engine.ruleInfo_cancelRemainingTasks_of_isComplete hk hu]
        have hepoch : (e.engine.cancelRemainingTasks client unrecorded).currentEpoch
            = e.engine.currentEpoch := by
          cases unrecorded <;> rfl
        rw [hepoch]
        exact hk
  · rw [htrap] at hdangling
    cases hdangling
  · rw [htrap] at hpast
    cases hpast

variable {actions : List (Action Key)}

theorem Lawful.run
    (hl : e.Lawful client) (h : e.Inv client) (hrun : e.run client actions = some e')
    (htrap : e'.engine.trap = none) :
  e'.Lawful client
  := by
  induction actions generalizing e with
  | nil =>
    cases hrun
    exact hl
  | cons a actions ih =>
    obtain ⟨e₁, hstep, hrun⟩ := run_cons hrun
    have htrap₁ := run_trap hrun htrap
    exact ih (hl.step h hstep htrap₁) (h.step hstep htrap₁) hrun

theorem phase_of_returned (hrun : e.run client actions = some e') (hp : e.phase = .returned false) :
  e'.phase = .returned false
  := by
  induction actions generalizing e with
  | nil =>
    cases hrun
    exact hp
  | cons a actions ih =>
    obtain ⟨e₁, hstep, hrun⟩ := run_cons hrun
    refine ih hrun ?_
    cases cancels_of_step (not_isLive.mpr (.inr hp)) hstep with
    | cancelTasks unrecorded hp ho => rfl
    | _ => exact hp

/-- A rule that is complete stays complete until the build ends, and after that unless its
result could not be recorded. -/
theorem Lawful.isComplete_run
    (hl : e.Lawful client) (h : e.Inv client) (hrun : e.run client actions = some e')
    (htrap : e'.engine.trap = none)
    (hk : (e.engine.ruleInfo client k).IsComplete e.engine.currentEpoch) :
  (e'.engine.ruleInfo client k).IsComplete e'.engine.currentEpoch
    ∨ e'.phase = .returned false ∧ (client.dbError (.setRuleResult k)).isSome
  := by
  induction actions generalizing e with
  | nil =>
    cases hrun
    exact .inl hk
  | cons a actions ih =>
    obtain ⟨e₁, hstep, hrun⟩ := run_cons hrun
    have htrap₁ := run_trap hrun htrap
    obtain hk₁ | ⟨hp, herror⟩ := hl.isComplete_step h hstep htrap₁ hk
    · exact ih (hl.step h hstep htrap₁) (h.step hstep htrap₁) hrun hk₁
    · exact .inr ⟨phase_of_returned hrun hp, herror⟩

end Execution

/-- In every build, whatever its schedule and however many cycles are broken, the task of a
rule is created once at most, and a rule that is complete stays complete until the build
ends, and after that as well unless its result could not be recorded. -/
theorem Engine.Between.createTask_once {s : Engine Key Value} (hs : Between s)
    (client : Client Key Value) (key : Key) {e e' : Execution Key Value}
    {actions actions' : List (Action Key)}
    (hrun : (Execution.start client key s).run client actions = some e)
    (hrun' : e.run client actions' = some e') (htrap : e'.engine.trap = none) (k : Key) :
  e'.engine.events.countP (Event.isCreateTask k) ≤ 1
    ∧ ((e.engine.ruleInfo client k).IsComplete e.engine.currentEpoch →
      (e'.engine.ruleInfo client k).IsComplete e'.engine.currentEpoch
        ∨ e'.phase = .returned false ∧ (client.dbError (.setRuleResult k)).isSome)
  := by
  have hinv := Execution.inv_start client hs.quiet key
  have hlawful : (Execution.start client key s).Lawful client :=
    ⟨(hinv.sound trivial).balanced.created, nofun⟩
  have htrap₁ := Execution.run_trap hrun' htrap
  have hinv₁ := hinv.run hrun htrap₁
  have hlawful₁ := hlawful.run hinv hrun htrap₁
  exact ⟨(hlawful₁.run hinv₁ hrun' htrap).created k, hlawful₁.isComplete_run hinv₁ hrun' htrap⟩

set_option maxRecDepth 4000 in
theorem Engine.Between.createTask_once_triangle :
  ∃ e, (Execution.start .triangle 0 (.fresh none)).run .triangle
      ((Execution.start .triangle 0 (.fresh none)).lateActions .triangle 100) = some e
    ∧ e.engine.events.countP (Event.isCreateTask 2) ≤ 1
  := by
  have hreturned : ((Execution.start .triangle 0 (.fresh none)).run .triangle
      ((Execution.start .triangle 0 (.fresh none)).lateActions .triangle 100)).map
        (fun e => e.engine.trap) = some none := by
    decide
  obtain ⟨e, hrun, htrap⟩ := Option.map_eq_some_iff.mp hreturned
  obtain ⟨hcreated, -⟩ := createTask_once (.fresh none) .triangle 0 hrun
    (show e.run .triangle [] = some e from rfl) htrap 2
  exact ⟨e, hrun, hcreated⟩

end LLBuild
