import LLBuild.Core.Runs
import LLBuild.Core.Schedule

/-!
# Breaking a cycle

A cycle is the list of the rules on a path from the rule that is built, each of which waits
for the next one, up to a rule that is already on the path.  `breakCycle` goes through the list
from its end.  It supplies the prior value of a rule to the rule before it in the list, so it
must not come to the first rule of the list with a prior value to supply.
-/

namespace LLBuild

open List

variable {Key Value : Type} [LinearOrder Key]

namespace Engine

/-! ### The list of a cycle -/

/-- A path that is found continues the one the search has come along. -/
theorem prefix_of_visit
    {graph : List (Key × Key)} {depth : ℕ} {path : List Key} {node : Key} {cycle : List Key}
    (h : visit graph depth path node = some cycle) :
  path ++ [node] <+: cycle
  := by
  induction depth generalizing path node with
  | zero =>
    rw [visit] at h
    split_ifs at h with hmem
    · cases h
      exact prefix_rfl
  | succ depth ih =>
    rw [visit] at h
    split_ifs at h with hmem
    · cases h
      exact prefix_rfl
    · obtain ⟨next, -, hnext⟩ := exists_of_findSome?_eq_some h
      exact (prefix_append _ _).trans (ih hnext)

theorem head?_findCycle (buildKey : Key) (s : Engine Key Value) :
  s.findCycle buildKey = [] ∨ (s.findCycle buildKey).head? = some buildKey
  := by
  rw [findCycle]
  cases hvisit : visit s.successorGraph (s.ruleInfos.entries.length + 1) [] buildKey with
  | none => exact .inl rfl
  | some cycle =>
    obtain ⟨rest, rfl⟩ := prefix_of_visit hvisit
    exact .inr rfl

/-- The list is a path of the graph from a rule, up to the first rule that is already on it. -/
def IsCycleFrom (graph : List (Key × Key)) (root : Key) (cycle : List Key) : Prop :=
  ∃ path node, cycle = path ++ [node] ∧ path.head? = some root ∧ path.Nodup ∧ node ∈ path
    ∧ cycle.IsChain fun a b => (b, a) ∈ graph

variable {graph : List (Key × Key)} {depth : ℕ} {path cycle rest : List Key} {node next : Key}

theorem visit_spec (h : visit graph depth path node = some cycle) (hnodup : path.Nodup)
    (hchain : (path ++ [node]).IsChain fun a b => (b, a) ∈ graph) :
  cycle.IsChain (fun a b => (b, a) ∈ graph)
    ∧ ∃ path' node', cycle = path' ++ [node'] ∧ path'.Nodup ∧ node' ∈ path'
  := by
  induction depth generalizing path node with
  | zero =>
    rw [visit] at h
    split_ifs at h with hmem
    cases h
    exact ⟨hchain, path, node, rfl, hnodup, hmem⟩
  | succ depth ih =>
    rw [visit] at h
    split_ifs at h with hmem
    · cases h
      exact ⟨hchain, path, node, rfl, hnodup, hmem⟩
    · obtain ⟨next, hnext, hvisit⟩ := exists_of_findSome?_eq_some h
      apply ih hvisit
      · rw [← concat_eq_append]
        apply hnodup.concat hmem
      · rw [append_assoc, singleton_append, isChain_append_cons_cons]
        simpa [hchain, predecessors] using hnext

theorem isCycleFrom_of_visit (h : visit graph depth [] node = some cycle) :
  IsCycleFrom graph node cycle
  := by
  obtain ⟨hchain, path, last, rfl, hnodup, hmem⟩ := visit_spec h nodup_nil (by simp)
  refine ⟨path, last, rfl, ?_, hnodup, hmem, hchain⟩
  obtain ⟨rest, hrest⟩ := prefix_of_visit h
  rw [← head?_append_of_ne_nil path (ne_nil_of_mem hmem), ← hrest]
  rfl

theorem notMem_of_visit (h : visit graph depth path node = none) :
  node ∉ path
  := by
  intro hmem
  cases depth <;> simp [visit, hmem] at h

theorem visit_of_edge (h : visit graph (depth + 1) path node = none)
    (hnext : (next, node) ∈ graph) :
  visit graph depth (path ++ [node]) next = none
  := by
  simp only [visit, if_neg (notMem_of_visit h), findSome?_eq_none_iff] at h
  apply h
  simpa [predecessors] using hnext

/-- If nothing is found, no path that the search has depth enough for comes back to itself. -/
theorem notMem_of_isChain (h : visit graph depth path node = none) (hdepth : rest.length < depth)
    (hchain : (node :: (rest ++ [next])).IsChain fun a b => (b, a) ∈ graph) :
  next ∉ path ++ node :: rest
  := by
  induction rest generalizing depth path node with
  | nil =>
    obtain ⟨depth, rfl⟩ := Nat.exists_eq_add_of_lt hdepth
    apply notMem_of_visit (visit_of_edge h _)
    simpa using hchain
  | cons m rest ih =>
    obtain ⟨depth, rfl⟩ := Nat.exists_eq_add_of_lt hdepth
    obtain ⟨hm, hrest⟩ := isChain_cons_cons.mp hchain
    have hnext := ih (visit_of_edge h hm) (by simp; omega) hrest
    simpa using hnext

variable [Inhabited Value] (client : Client Key Value)

/-! ### What can be done about a cycle -/

variable (s : Engine Key Value)

/-- A rule waits with a prior result. -/
def HasPriorValue (key : Key) : Prop :=
  (s.ruleInfo client key).IsInProgressWaiting ∧ (s.ruleInfo client key).result.builtAt ≠ 0

/-- A rule waits for the request of another one. -/
def IsRequestedBy (key next : Key) : Prop :=
  ∃ t, (s.ruleInfo client key).state = .inProgressWaiting t
    ∧ ∃ request ∈ t.requestedBy, request.taskInfo = some next

/-- The cycle can be broken: a rule of it is being scanned, or a rule that has a prior value was
requested by the rule before it in the list. -/
def CanBreak (cycle : List Key) : Prop :=
  (∃ key ∈ cycle, (s.ruleInfo client key).IsScanning)
    ∨ ∃ before next key after, cycle = before ++ next :: key :: after
      ∧ s.HasPriorValue client key ∧ s.IsRequestedBy client key next

/-- What `breakCycle` does: nothing; force a rule of the cycle that is being scanned; or supply a
prior value to a request of the rule before in the list. -/
inductive Breaks (s : Engine Key Value) (cycle : List Key) : Bool × Engine Key Value → Prop
  | unbroken : Breaks s cycle (false, s)
  | forced {key : Key} (hmem : key ∈ cycle) (hscanning : (s.ruleInfo client key).IsScanning) :
      Breaks s cycle (true, s.forceBuild client key)
  | supplied {before after : List Key} {next key : Key} {t : TaskInfo Key Value}
      {request : TaskInputRequest Key} (hcycle : cycle = before ++ next :: key :: after)
      (hstate : (s.ruleInfo client key).state = .inProgressWaiting t)
      (hbuilt : (s.ruleInfo client key).result.builtAt ≠ 0)
      (hrequest : request ∈ t.requestedBy) (htask : request.taskInfo = some next) :
      Breaks s cycle (true, s.supplyPriorValue client key request)

variable {client} {s : Engine Key Value}

/-- A rule at the end of the list that is of no use can be left out. -/
theorem CanBreak.of_concat
    {cycle : List Key} {key : Key} (h : s.CanBreak client (cycle ++ [key]))
    (hscanning : ¬ (s.ruleInfo client key).IsScanning)
    (hrequest : ∀ next ∈ cycle.getLast?, s.HasPriorValue client key →
      ¬ s.IsRequestedBy client key next) :
  s.CanBreak client cycle
  := by
  obtain ⟨key', hmem, hkey'⟩ | ⟨before, next, key', after, heq, hprior, hrequested⟩ := h
  · obtain hmem | hmem := mem_append.mp hmem
    · exact .inl ⟨key', hmem, hkey'⟩
    · rw [mem_singleton.mp hmem] at hkey'
      exact absurd hkey' hscanning
  · obtain rfl | ⟨after, last, rfl⟩ := eq_nil_or_concat' after
    · obtain ⟨rfl, hkey⟩ := append_inj' (show cycle ++ [key] = (before ++ [next]) ++ [key'] by
        rw [heq, append_assoc]
        rfl) rfl
      obtain rfl : key = key' := by simpa using hkey
      exact absurd hrequested (hrequest next (by simp) hprior)
    · obtain ⟨rfl, -⟩ := append_inj' (show cycle ++ [key]
          = (before ++ next :: key' :: after) ++ [last] by
        rw [heq, append_assoc]
        rfl) rfl
      exact .inr ⟨before, next, key', after, rfl, hprior, hrequested⟩

/-- The rules of a list, from the end on, are gone through without leaving the list, if the list
can be broken or its first rule has no prior value. -/
theorem breaks_breakCycleFrom
    (cycle rest done : List Key) (hcycle : cycle = rest.reverse ++ done)
    (h : s.CanBreak client rest.reverse ∨ ∀ first ∈ rest.getLast?, ¬ s.HasPriorValue client first) :
  Breaks client s cycle (s.breakCycleFrom client cycle rest)
  := by
  induction rest generalizing done with
  | nil => exact .unbroken
  | cons key rest ih =>
    rw [reverse_cons] at hcycle h
    have hmem : key ∈ cycle := by simp [hcycle]
    rw [append_assoc] at hcycle
    -- The loop goes on with the rest of the list.
    have hrest : ¬ (s.ruleInfo client key).IsScanning →
        (∀ next ∈ rest.head?, s.HasPriorValue client key → ¬ s.IsRequestedBy client key next) →
        Breaks client s cycle (s.breakCycleFrom client cycle rest) := by
      intro hscanning hrequest
      apply ih _ hcycle
      obtain h | h := h
      · exact .inl (h.of_concat hscanning (by rwa [getLast?_reverse]))
      · cases rest with
        | nil => exact .inr (by simp)
        | cons next rest => exact .inr (by rwa [getLast?_cons_cons] at h)
    rw [breakCycleFrom]
    split
    · rename_i record hstate
      split_ifs
      · exact .unbroken
      · exact .forced hmem (by rw [RuleInfo.IsScanning, hstate]; rfl)
    · rename_i t hstate
      have hscanning : ¬ (s.ruleInfo client key).IsScanning := by
        rw [RuleInfo.IsScanning, hstate]
        intro h
        cases h
      by_cases hbuilt : (s.ruleInfo client key).result.builtAt = 0
      · rw [if_pos hbuilt]
        exact hrest hscanning (fun _ _ hprior => absurd hbuilt hprior.2)
      rw [if_neg hbuilt]
      have hprior : s.HasPriorValue client key := by
        refine ⟨?_, hbuilt⟩
        rw [RuleInfo.IsInProgressWaiting, hstate]
        rfl
      cases rest with
      | nil =>
        -- The first rule of the list: there is no rule before it.
        obtain h | h := h
        · have hnil := h.of_concat hscanning (by simp)
          obtain ⟨_, hmem, -⟩ | ⟨before, _, _, _, heq, -⟩ := hnil
          · cases hmem
          · cases before <;> cases heq
        · exact absurd hprior (h key rfl)
      | cons next rest =>
        dsimp only
        cases hfind : t.requestedBy.find? (·.taskInfo = some next) with
        | none =>
          apply hrest hscanning
          rintro next' hnext - ⟨t', hstate', request, hrequest, htask⟩
          cases hnext
          rw [hstate] at hstate'
          cases hstate'
          exact find?_eq_none.mp hfind request hrequest (decide_eq_true htask)
        | some request =>
          split_ifs
          · exact .unbroken
          · have htask := find?_some hfind
            have hlist : cycle = rest.reverse ++ next :: key :: done := by
              rw [hcycle, reverse_cons, append_assoc]
              rfl
            exact .supplied hlist hstate hbuilt (mem_of_find?_eq_some hfind)
              (of_decide_eq_true htask)
    · rename_i hnotScanning hnotWaiting
      have hscanning : ¬ (s.ruleInfo client key).IsScanning := by
        intro h
        cases hstate : (s.ruleInfo client key).state with
        | isScanning record => exact hnotScanning record hstate
        | _ => rw [RuleInfo.IsScanning, hstate] at h; cases h
      apply hrest hscanning
      rintro next - - ⟨t, hstate, -⟩
      exact absurd hstate (hnotWaiting t)

theorem CanBreak.append {cycle : List Key} (h : s.CanBreak client cycle) (rest : List Key) :
  s.CanBreak client (cycle ++ rest)
  := by
  obtain ⟨key, hmem, hscanning⟩ | ⟨before, next, key, after, rfl, h⟩ := h
  · exact .inl ⟨key, mem_append_left rest hmem, hscanning⟩
  · exact .inr ⟨before, next, key, after ++ rest, by rw [append_assoc]; rfl, h⟩

/-- If no rule of a list is of use, and the first one has a prior value, the rule before the first
one is read. -/
theorem breakCycleFrom_pastTheEnd
    (cycle : List Key) {rest : List Key} {first : Key} (hfirst : rest.getLast? = some first)
    (hprior : s.HasPriorValue client first) (h : ¬ s.CanBreak client rest.reverse) :
  s.breakCycleFrom client cycle rest = (false, s.trapped .pastTheEnd)
  := by
  induction rest with
  | nil => cases hfirst
  | cons key rest ih =>
    rw [reverse_cons] at h
    have hscanning : ¬ (s.ruleInfo client key).IsScanning :=
      fun hscanning => h (.inl ⟨key, by simp, hscanning⟩)
    -- The loop goes on, unless the rule is the first one.
    have hrest (hkey : ¬ s.HasPriorValue client key ∨ rest ≠ []) :
        s.breakCycleFrom client cycle rest = (false, s.trapped .pastTheEnd) := by
      cases rest with
      | nil =>
        cases hfirst
        obtain hkey | hkey := hkey
        · exact absurd hprior hkey
        · exact absurd rfl hkey
      | cons next rest =>
        rw [getLast?_cons_cons] at hfirst
        exact ih hfirst (fun hcan => h (hcan.append [key]))
    rw [breakCycleFrom]
    split
    · rename_i record hstate
      exact absurd (by rw [RuleInfo.IsScanning, hstate]; rfl) hscanning
    · rename_i t hstate
      by_cases hbuilt : (s.ruleInfo client key).result.builtAt = 0
      · rw [if_pos hbuilt]
        exact hrest (.inl fun hkey => hkey.2 hbuilt)
      rw [if_neg hbuilt]
      cases rest with
      | nil => rfl
      | cons next rest =>
        dsimp only
        cases hfind : t.requestedBy.find? (·.taskInfo = some next) with
        | none => exact hrest (.inr (cons_ne_nil next rest))
        | some request =>
          have hkey : s.HasPriorValue client key := by
            refine ⟨?_, hbuilt⟩
            rw [RuleInfo.IsInProgressWaiting, hstate]
            rfl
          have hrequested : s.IsRequestedBy client key next :=
            ⟨t, hstate, request, mem_of_find?_eq_some hfind, by simpa using find?_some hfind⟩
          exact absurd (.inr ⟨rest.reverse, next, key, [], by simp, hkey, hrequested⟩) h
    · rename_i hnotWaiting
      apply hrest (.inl _)
      rintro ⟨hwaiting, -⟩
      cases hstate : (s.ruleInfo client key).state with
      | inProgressWaiting t => exact hnotWaiting t hstate
      | _ => rw [RuleInfo.IsInProgressWaiting, hstate] at hwaiting; cases hwaiting

/-- **Breaking a cycle stays inside of the list** of a stuck build: no rule before the first one is
read, and a prior value is supplied to a request of the rule before in the list.  This holds exactly
if there is no cycle, or the rule that is built does not wait with a prior value, or one of the
rules of the list is of use. -/
theorem breaks_breakCycle_iff
    (client : Client Key Value) {s : Engine Key Value} (htrap : s.trap = none) (buildKey : Key) :
  Breaks client s (s.findCycle buildKey) (s.breakCycle client (s.findCycle buildKey))
    ↔ s.findCycle buildKey = [] ∨ ¬ s.HasPriorValue client buildKey
      ∨ s.CanBreak client (s.findCycle buildKey)
  := by
  constructor
  · intro hbreaks
    by_contra h
    rw [not_or, not_or, not_not] at h
    obtain ⟨hne, hprior, hcan⟩ := h
    have hfirst := (head?_findCycle buildKey s).resolve_left hne
    rw [breakCycle, breakCycleFrom_pastTheEnd _ (by rwa [getLast?_reverse]) hprior
      (by rwa [reverse_reverse])] at hbreaks
    generalize hresult : (false, s.trapped .pastTheEnd) = result at hbreaks
    cases hbreaks with
    | unbroken =>
      have htrapped := congrArg (fun result => result.2.trap) hresult
      simp [trapped, htrap] at htrapped
    | forced | supplied => cases congrArg Prod.fst hresult
  · intro h
    apply breaks_breakCycleFrom _ _ [] (by simp)
    rw [reverse_reverse, getLast?_reverse]
    obtain h | h | h := h
    · rw [h]
      exact .inr (fun _ hfirst => by cases hfirst)
    · right
      intro first hfirst
      obtain hnil | hhead := head?_findCycle buildKey s
      · rw [hnil] at hfirst
        cases hfirst
      · rw [hhead] at hfirst
        cases hfirst
        exact h
    · exact .inl h

end Engine

namespace BreakSamples

/-- A client whose rules request nothing. -/
def alone : Client ℕ ℕ :=
  .fixed (fun _ => []) (fun _ => []) (fun k values => k + values.length) (fun _ _ => true) true

/-- Rule `0`, whose result is not valid, requests `1`, and rules `1` and `2` request each
other. -/
def loop : Client ℕ ℕ :=
  .fixed (fun k => if k = 0 then [1] else if k = 1 then [2] else if k = 2 then [1] else [])
    (fun _ => []) (fun k values => k + values.length) (fun k _ => k ≠ 0) true

/-- The engine after a build of rule `0`. -/
def built : Engine ℕ ℕ :=
  ((Engine.fresh none).lateBuild alone 100 0).elim (.fresh none) Prod.snd

/-- The state of a build of rule `0` with the loop after a number of steps of the main loop, and
the next one. -/
def steps (s : Engine ℕ ℕ) (n : ℕ) : Option (Execution ℕ ℕ × Execution ℕ ℕ) :=
  ((Execution.start loop 0 s).run loop (replicate n .work)).bind
    (fun e => (e.step loop .work).map (fun e' => (e, e')))

end BreakSamples

open BreakSamples

set_option maxRecDepth 4000 in
theorem Engine.breaks_breakCycle_first_build :
  ∃ e e', steps (.fresh none) 18 = some (e, e')
    ∧ e.engine.findCycle 0 = [0, 1, 2, 1]
    ∧ Breaks loop e.engine (e.engine.findCycle 0)
        (e.engine.breakCycle loop (e.engine.findCycle 0))
  := by
  have hsteps : (steps (.fresh none) 18).map (fun p =>
      (p.1.engine.findCycle 0, (p.1.engine.ruleInfo loop 0).result.builtAt, p.1.engine.trap))
      = some ([0, 1, 2, 1], 0, none) := by
    decide
  obtain ⟨⟨e, e'⟩, hp, hobserved⟩ := Option.map_eq_some_iff.mp hsteps
  obtain ⟨hcycle, hobserved⟩ := Prod.mk.inj hobserved
  obtain ⟨hbuilt, htrap⟩ := Prod.mk.inj hobserved
  refine ⟨e, e', hp, hcycle, ?_⟩
  exact (breaks_breakCycle_iff loop htrap 0).mpr (.inr (.inl fun hprior => hprior.2 hbuilt))

set_option maxRecDepth 4000 in
/-- Rule `0` waits with a prior result, and the rules of the loop have none: the loop over the
list gets to rule `0` and reads the rule before it. -/
theorem Engine.breakCycle_pastTheEnd :
  Between built
    ∧ (steps built 17).map (fun p => (p.1.engine.trap, p.1.engine.findCycle 0, p.2.engine.trap))
      = some (none, [0, 1, 2, 1], some .pastTheEnd)
  := by
  constructor
  · have hbuild : ((Engine.fresh none).lateBuild alone 100 0).isSome := by
      decide
    obtain ⟨⟨value, s⟩, hs⟩ := Option.isSome_iff_exists.mp hbuild
    rw [built, hs]
    exact .build (.fresh none) alone 0 _ value hs
  · decide

/-! ### The search for a cycle -/

section

variable [Inhabited Value] {client : Client Key Value} {s : Engine Key Value}

/-- The rules that are waited for are known to the engine. -/
theorem Engine.Located.mem_keys (h : s.Located client) {a b : Key}
    (hedge : (b, a) ∈ s.successorGraph) :
  b ∈ s.ruleInfos.keys
  := by
  obtain ⟨⟨k, r⟩, hr, hedge⟩ := mem_flatMap.mp hedge
  have hlocated : r.state.Located k := by
    simpa [ruleInfo, Table.mem_entries.mp hr] using h k
  obtain rfl : b = k := by
    cases hstate : r.state with
    | isScanning record =>
      cases record <;> simp [successors, hstate] at hedge
      rw [hstate] at hlocated
      obtain ⟨request, hrequest, -, rfl⟩ | ⟨request, hrequest, hb, -⟩ := hedge
      · apply hlocated.1 request hrequest
      · simpa [hb] using hlocated.2 request hrequest
    | _ => grind [successors, Option.map_eq_some_iff]
  exact mem_map_of_mem hr

variable [DecidableEq Value] in
/-- **The search for a cycle.**  Whatever the schedule of a build, and as long as it is not being
cancelled, the search finds a cycle that is reached from the rule that is built, if there is one,
and nothing otherwise. -/
theorem Engine.Between.findCycle_spec (hs : Engine.Between s) (key : Key)
    {e : Execution Key Value} {actions : List (Action Key)}
    (hrun : (Execution.start client key s).run client actions = some e)
    (htrap : e.engine.trap = none) (hlive : e.IsLive) :
  IsCycleFrom e.engine.successorGraph key (e.engine.findCycle key)
    ∨ e.engine.findCycle key = [] ∧ ∀ cycle, ¬ IsCycleFrom e.engine.successorGraph key cycle
  := by
  have hlocated : e.engine.Located client :=
    (((Execution.inv_start client hs.quiet key).run hrun htrap).sound hlive).located
  rw [findCycle]
  cases hvisit : visit e.engine.successorGraph (e.engine.ruleInfos.entries.length + 1) [] key with
  | some cycle => exact .inl (isCycleFrom_of_visit hvisit)
  | none =>
    refine .inr ⟨rfl, ?_⟩
    rintro cycle ⟨path, node, rfl, hhead, hnodup, hmem, hchain⟩
    obtain ⟨rest, rfl⟩ := head?_eq_some_iff.mp hhead
    -- Behind the first one, the rules of a path are waited for, so the search is deep enough.
    have : IsTrans Key (fun _ b => b ∈ e.engine.ruleInfos.keys) := ⟨fun _ _ _ _ hb => hb⟩
    have hkeys := isChain_iff_pairwise.mp (hchain.imp fun _ _ hedge => hlocated.mem_keys hedge)
    have hlength := (hnodup.of_cons.subperm fun b hb =>
      (pairwise_cons.mp hkeys).1 b (mem_append_left [node] hb)).length_le
    rw [AList.keys, List.keys, length_map] at hlength
    exact notMem_of_isChain hvisit (Nat.lt_succ_of_le hlength) hchain hmem

end

set_option maxRecDepth 4000 in
theorem Engine.Between.findCycle_spec_loop :
  ∃ e : Execution ℕ ℕ, e.engine.findCycle 0 = [0, 1, 2, 1]
    ∧ IsCycleFrom e.engine.successorGraph 0 [0, 1, 2, 1]
  := by
  have hsteps : ((Execution.start loop 0 (.fresh none)).run loop (replicate 17 .work)).map (fun e =>
      (e.engine.findCycle 0, e.engine.trap, e.phase)) = some ([0, 1, 2, 1], none, .endOfBody) := by
    decide
  obtain ⟨e, hrun, he⟩ := Option.map_eq_some_iff.mp hsteps
  obtain ⟨hcycle, htrap, hphase⟩ := by simpa using he
  have h := findCycle_spec (.fresh none) 0 hrun htrap (by simp [Execution.IsLive, hphase])
  rw [hcycle] at h
  refine ⟨e, hcycle, ?_⟩
  simpa using h

end LLBuild
