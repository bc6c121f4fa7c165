import Treewalk.Proofs.Evaluation.Comparison
import Treewalk.Proofs.Scope.Mirror

/-!
Reclaiming scopes cannot be seen by programs. A machine that frees scopes when they
are left, and collects after a program, is compared with one that frees nothing:
the store of the second mirrors that of the first. During a program only the scope
that is left can be freed, and only unpinned; what a function has captured is
pinned, so no value on its way refers to a freed scope.
-/

namespace Treewalk

/-- What an evaluation does to a store: the scopes that lived live on in their
places, and of the new ones only pinned scopes remain. -/
structure Arena.Outlived (a b : Arena) : Prop where
  kept : ∀ id s, a.get? id = some s → ∃ s', b.get? id = some s' ∧ s'.outer = s.outer ∧
    (s.pinned = true → s'.pinned = true)
  made : ∀ id s, b.get? id = some s → a.contains id = true ∨ s.pinned = true

namespace Arena.Outlived

variable {a b c : Arena}

theorem refl (a : Arena) : a.Outlived a :=
  ⟨fun _ s hs => ⟨s, hs, rfl, id⟩, fun _ s hs => .inl (contains_iff.2 ⟨s, hs⟩)⟩

theorem trans (h : a.Outlived b) (k : b.Outlived c) : a.Outlived c := by
  refine ⟨fun id s hs => ?_, fun id s hs => ?_⟩
  · obtain ⟨t, ht, ho, hp⟩ := h.kept id s hs
    obtain ⟨u, hu, ho', hp'⟩ := k.kept id t ht
    exact ⟨u, hu, ho'.trans ho, fun hpin => hp' (hp hpin)⟩
  · obtain hb | hp := k.made id s hs
    · obtain ⟨t, ht⟩ := contains_iff.1 hb
      obtain ha | hp := h.made id t ht
      · exact .inl ha
      · obtain ⟨u, hu, -, hpin⟩ := k.kept id t ht
        obtain rfl : u = s := Option.some.inj (hu.symm.trans hs)
        exact .inr (hpin hp)
    · exact .inr hp

theorem contains (h : a.Outlived b) {id : ScopeId} (hid : a.contains id = true) :
    b.contains id = true := by
  obtain ⟨s, hs⟩ := contains_iff.1 hid
  obtain ⟨t, ht, -⟩ := h.kept id s hs
  exact contains_iff.2 ⟨t, ht⟩

theorem pinned (h : a.Outlived b) {id : ScopeId} (hid : a.Pinned id) : b.Pinned id := by
  obtain ⟨s, hs, hp⟩ := hid
  obtain ⟨t, ht, -, hpin⟩ := h.kept id s hs
  exact ⟨t, ht, hpin hp⟩

theorem of_pinsMore (h : a.PinsMore b) : a.Outlived b := by
  refine ⟨fun id s hs => ?_, fun id s hs => .inl ?_⟩
  · obtain ⟨p, hp⟩ := h id
    exact ⟨raisePin p s, by rw [hp, hs]; rfl, rfl, fun hpin => by simp [raisePin, hpin]⟩
  · rw [← h.contains_eq]
    exact contains_iff.2 ⟨s, hs⟩

theorem define (a : Arena) (id : ScopeId) (name : String) (value : Value) :
    a.Outlived (a.define id name value) := by
  refine ⟨fun x s hs => ?_, fun x s hs => .inl ?_⟩
  · by_cases hx : x = id
    · subst hx
      refine ⟨{ s with bindings := s.bindings.put name value }, ?_, rfl, fun hp => hp⟩
      rw [get?_define, if_pos rfl, hs]
      rfl
    · exact ⟨s, by rw [get?_define, if_neg hx, hs], rfl, fun hp => hp⟩
  · rw [← contains_define id x name value]
    exact contains_iff.2 ⟨s, hs⟩

/-- A scope is entered, an evaluation outlives it, and it is left: then it is gone
unless pinned, and nothing that is left refers to it. -/
theorem enter_leave (ha : a.Consistent) {outer : Option ScopeId}
    (h : (a.alloc outer).2.Outlived b) : a.Outlived (b.release (a.alloc outer).1) := by
  have hget := get?_alloc ha outer
  have hfresh := get?_alloc_self_before ha outer
  refine ⟨fun id s hs => ?_, fun id s hs => ?_⟩
  · have hid : id ≠ (a.alloc outer).1 := fun e => by simp [← e, hs] at hfresh
    obtain ⟨t, ht, ho, hp⟩ := h.kept id s (by rw [hget, if_neg hid, hs])
    exact ⟨t, by rw [get?_release, if_neg fun e => hid e.1, ht], ho, hp⟩
  · rw [get?_release] at hs
    split at hs
    · cases hs
    · rename_i hkept
      obtain hlive | hp := h.made id s hs
      · rw [Arena.contains, hget] at hlive
        split at hlive
        · rename_i hid
          right
          by_contra hp
          rw [Bool.not_eq_true] at hp
          exact hkept ⟨hid, s, by rw [← hid, hs], hp⟩
        · exact .inl hlive
      · exact .inr hp

end Arena.Outlived

/-- When a scope is left that an evaluation has outlived, no remaining scope refers to
it, and a store that mirrors the one before mirrors the one after. -/
theorem Arena.Mirrors.release {rename : ScopeId → ScopeId} {a b c : Arena}
    (ha : a.Nested) {outer : Option ScopeId} (houtlived : (a.alloc outer).2.Outlived b)
    (h : Arena.Mirrors rename b c) : Arena.Mirrors rename (b.release (a.alloc outer).1) c := by
  have hget := get?_release b (a.alloc outer).1
  have hfresh := get?_alloc_self_before ha.consistent outer
  have hpinned : ∀ id, b.Pinned id → (b.release (a.alloc outer).1).contains id = true := by
    rintro id ⟨s, hs, hp⟩
    rw [Arena.contains, hget, if_neg]
    · rw [hs]
      rfl
    · rintro ⟨rfl, t, ht, htp⟩
      rw [hs] at ht
      cases ht
      rw [hp] at htp
      cases htp
  refine h.restrict (consistent_release h.nested.consistent _) (fun id s hs => ?_)
    fun id hid s hs => ⟨fun o ho => ?_, fun name v f mem inside => ?_⟩
  · rw [hget] at hs
    split at hs
    · cases hs
    · exact hs
  · obtain hlive | hp := houtlived.made id s hs
    · rw [Arena.contains, get?_alloc ha.consistent] at hlive
      split at hlive
      · rename_i hself
        rw [Arena.contains, hget] at hid
        split at hid
        · cases hid
        · rename_i hkept
          have hp : s.pinned = true := by
            by_contra hp
            rw [Bool.not_eq_true] at hp
            exact hkept ⟨hself, s, by rw [← hself, hs], hp⟩
          exact hpinned o (h.pinnedOutward id s o hs hp ho)
      · -- a scope from before lies in one from before
        obtain ⟨before, hbefore⟩ := Option.isSome_iff_exists.1 hlive
        have hne : id ≠ (a.alloc outer).1 := by assumption
        obtain ⟨t, ht, hto, -⟩ :=
          houtlived.kept id before (by rw [get?_alloc ha.consistent, if_neg hne, hbefore])
        obtain rfl : t = s := Option.some.inj (ht.symm.trans hs)
        have holive := ha.closed id before o hbefore (hto ▸ ho)
        have hone : o ≠ (a.alloc outer).1 := by
          rintro rfl
          simp [Arena.contains, hfresh] at holive
        rw [Arena.contains, hget, if_neg fun e => hone e.1]
        exact h.nested.closed id t o hs ho
    · exact hpinned o (h.pinnedOutward id s o hs hp ho)
  · obtain ⟨t, -, -, hbindings⟩ := h.scope id s hs
    obtain ⟨g, hfg⟩ := hbindings.exists_answer mem inside
    exact hpinned f.scope hfg.1

/-- Two machines, of which the second frees nothing and mirrors the first. -/
structure Twins where
  left : Machine
  right : Machine
  rename : ScopeId → ScopeId
  mirrors : Arena.Mirrors rename left.environment.arena right.environment.arena
  current_lives : left.environment.arena.contains left.environment.current = true
  root_lives : left.environment.arena.contains left.environment.root = true
  current_eq : right.environment.current = rename left.environment.current
  root_eq : right.environment.root = rename left.environment.root
  callDepth_eq : right.environment.callDepth = left.environment.callDepth
  printed_eq : right.printed = left.printed
  functions_eq : right.functions = left.functions
  flag_eq : right.flag = left.flag

namespace Twins

/-- What an evaluation keeps of the twins it begins with. -/
structure Later (w w' : Twins) : Prop where
  outlived : w.left.environment.arena.Outlived w'.left.environment.arena
  current_eq : w'.left.environment.current = w.left.environment.current
  root_eq : w'.left.environment.root = w.left.environment.root
  rename_eq : ∀ id, w.left.environment.arena.contains id = true → w'.rename id = w.rename id

theorem Later.refl (w : Twins) : w.Later w :=
  ⟨.refl _, rfl, rfl, fun _ _ => rfl⟩

theorem Later.trans {w w' w'' : Twins} (h : w.Later w') (k : w'.Later w'') : w.Later w'' :=
  ⟨h.outlived.trans k.outlived, k.current_eq.trans h.current_eq, k.root_eq.trans h.root_eq,
    fun id hid => (k.rename_eq id (h.outlived.contains hid)).trans (h.rename_eq id hid)⟩

/-- The functions of the two machines that answer to each other. -/
def Functions (w : Twins) : Function → Function → Prop :=
  w.left.environment.arena.CapturedAs w.rename

/-- Twins that have printed more. -/
def print (w : Twins) (text : String) : Twins :=
  { w with
    left := { w.left with printed := w.left.printed ++ text }
    right := { w.right with printed := w.right.printed ++ text }
    printed_eq := by rw [w.printed_eq] }

/-- Twins that have looked at their flags. -/
def look (w : Twins) : Twins :=
  { w with
    left := w.left.look
    right := w.right.look
    flag_eq := congrArg Flag.looked w.flag_eq }

/-- Twins at the beginning of a call. -/
def enterCall (w : Twins) : Twins :=
  { w with
    left := w.left.changeEnvironment fun env => { env with callDepth := env.callDepth + 1 }
    right := w.right.changeEnvironment fun env => { env with callDepth := env.callDepth + 1 }
    callDepth_eq := congrArg (· + 1) w.callDepth_eq }

/-- Twins at the end of a call. -/
def exitCall (w : Twins) : Twins :=
  { w with
    left := w.left.changeEnvironment Environment.exitCall
    right := w.right.changeEnvironment Environment.exitCall
    callDepth_eq := congrArg (· - 1) w.callDepth_eq }

/-- Twins in a new scope on both sides. -/
def enter (w : Twins) (outer : ScopeId)
    (hlives : w.left.environment.arena.contains outer = true) : Twins where
  left := (Eval.enter outer w.left).2
  right := (Eval.enter (w.rename outer) w.right).2
  rename := Arena.Mirrors.renameWith w.rename
    (w.left.environment.arena.alloc (some outer)).1
    (w.right.environment.arena.alloc (some (w.rename outer))).1
  mirrors := w.mirrors.alloc hlives
  current_lives := by
    show (w.left.environment.arena.alloc (some outer)).2.contains _ = true
    rw [Arena.contains, Arena.get?_alloc w.mirrors.nested.consistent]
    exact congrArg Option.isSome (if_pos rfl)
  root_lives := by
    show (w.left.environment.arena.alloc (some outer)).2.contains w.left.environment.root = true
    rw [← Arena.mem_liveIds, Arena.liveIds_alloc w.mirrors.nested.consistent]
    exact Finset.mem_insert_of_mem (Arena.mem_liveIds.2 w.root_lives)
  current_eq := (Arena.Mirrors.renameWith_self ..).symm
  root_eq := by
    refine w.root_eq.trans (Arena.Mirrors.renameWith_of_ne _ _ ?_).symm
    intro e
    have hroot := w.root_lives
    rw [e, Arena.contains, Arena.get?_alloc_self_before w.mirrors.nested.consistent] at hroot
    cases hroot
  callDepth_eq := w.callDepth_eq
  printed_eq := w.printed_eq
  functions_eq := w.functions_eq
  flag_eq := w.flag_eq

section Leaving

variable {w w' : Twins} {outer : ScopeId}
  {hlives : w.left.environment.arena.contains outer = true}

theorem enter_rename_eq {id : ScopeId} (hid : w.left.environment.arena.contains id = true) :
    (w.enter outer hlives).rename id = w.rename id := by
  refine Arena.Mirrors.renameWith_of_ne _ _ ?_
  rintro rfl
  rw [Arena.contains, Arena.get?_alloc_self_before w.mirrors.nested.consistent] at hid
  cases hid

theorem functions_enter (f g : Function) (h : w.Functions f g) :
    (w.enter outer hlives).Functions f g := by
  obtain ⟨s, hs, hp⟩ := h.1
  refine ⟨⟨s, ?_, hp⟩, by rw [enter_rename_eq h.1.lives, h.2]⟩
  show (w.left.environment.arena.alloc (some outer)).2.get? f.scope = some s
  rw [Arena.get?_alloc w.mirrors.nested.consistent, if_neg, hs]
  intro e
  rw [e, Arena.get?_alloc_self_before w.mirrors.nested.consistent] at hs
  cases hs

theorem contains_enter {id : ScopeId} (hid : w.left.environment.arena.contains id = true) :
    (w.enter outer hlives).left.environment.arena.contains id = true := by
  show (w.left.environment.arena.alloc (some outer)).2.contains id = true
  rw [← Arena.mem_liveIds, Arena.liveIds_alloc w.mirrors.nested.consistent]
  exact Finset.mem_insert_of_mem (Arena.mem_liveIds.2 hid)

theorem release_current (h : (w.enter outer hlives).Later w') :
    w'.left.environment.arena.release w'.left.environment.current =
      w'.left.environment.arena.release (w.left.environment.arena.alloc (some outer)).1 :=
  congrArg (Arena.release · w'.left.environment.arena) h.current_eq

theorem outlived_leave (h : (w.enter outer hlives).Later w') :
    w.left.environment.arena.Outlived
      (w'.left.environment.arena.release w'.left.environment.current) := by
  rw [release_current h]
  exact .enter_leave w.mirrors.nested.consistent h.outlived

/-- Twins that leave the new scope again: the left one frees it unless it is pinned,
the right one keeps it. -/
def leave (h : (w.enter outer hlives).Later w') : Twins where
  left := Eval.leave .prompt w.left.environment.current w'.left
  right := Eval.leave .never w.right.environment.current w'.right
  rename := w'.rename
  mirrors := by
    show Arena.Mirrors w'.rename
      (w'.left.environment.arena.release w'.left.environment.current) w'.right.environment.arena
    rw [release_current h]
    exact w'.mirrors.release w.mirrors.nested h.outlived
  current_lives := (outlived_leave h).contains w.current_lives
  root_lives := by
    show (w'.left.environment.arena.release _).contains w'.left.environment.root = true
    rw [h.root_eq]
    exact (outlived_leave h).contains w.root_lives
  current_eq := by
    show w.right.environment.current = w'.rename w.left.environment.current
    rw [h.rename_eq _ (contains_enter w.current_lives), enter_rename_eq w.current_lives,
      w.current_eq]
  root_eq := w'.root_eq
  callDepth_eq := w'.callDepth_eq
  printed_eq := w'.printed_eq
  functions_eq := w'.functions_eq
  flag_eq := w'.flag_eq

theorem later_leave (h : (w.enter outer hlives).Later w') : w.Later (leave h) :=
  ⟨outlived_leave h, rfl, h.root_eq, fun id hid =>
    (h.rename_eq id (contains_enter hid)).trans (enter_rename_eq hid)⟩

theorem functions_leave (h : (w.enter outer hlives).Later w') (f g : Function)
    (hfg : w'.Functions f g) : (leave h).Functions f g := by
  obtain ⟨s, hs, hp⟩ := hfg.1
  refine ⟨⟨s, ?_, hp⟩, hfg.2⟩
  show (w'.left.environment.arena.release w'.left.environment.current).get? f.scope = some s
  rw [Arena.get?_release, if_neg, hs]
  rintro ⟨e, t, ht, htp⟩
  rw [← e, hs] at ht
  cases ht
  rw [hp] at htp
  cases htp

end Leaving

end Twins

/-- The comparison of a machine that reclaims scopes with one that does not. No
evaluation finds a scope gone. -/
def reclaiming : Comparison where
  World := Twins
  left := Twins.left
  right := Twins.right
  later := Twins.Later
  functions := Twins.Functions
  allows e := e ≠ .danglingScope
  abandons _ := False
  later_refl := Twins.Later.refl
  later_trans := Twins.Later.trans
  functions_later := fun h _ _ hfg =>
    ⟨h.outlived.pinned hfg.1, by rw [h.rename_eq _ hfg.1.lives, hfg.2]⟩
  functions_syntax := fun h => by rw [h.2]; exact ⟨rfl, rfl⟩
  not_abandons_returning := fun _ h => h

open Comparison

/-- A scope may be entered and left around evaluations that agree. -/
theorem agree_within (w : Twins) {outer : ScopeId}
    (hlives : w.left.environment.arena.contains outer = true) {run other : Eval Value}
    (h : ∀ w' : Twins, (∀ f g, w.Functions f g → w'.Functions f g) →
      reclaiming.Agree reclaiming.Values w' run other) :
    reclaiming.Agree reclaiming.Values w (Eval.within .prompt outer run)
      (Eval.within .never (w.rename outer) other) := by
  refine Comparison.agree_within (w.enter outer hlives) rfl rfl
    (h _ Twins.functions_enter) fun w' later => ?_
  exact ⟨Twins.leave later, Twins.later_leave later, rfl, rfl, Twins.functions_leave later⟩

theorem keptBy_reclaiming {ctx ctx' : Context} (hdepth : ctx.maxCallDepth = ctx'.maxCallDepth) :
    reclaiming.KeptBy .prompt .never ctx ctx' where
  allows_fault e h := by
    rintro rfl
    cases h
  poll (w : Twins) :=
    agree_poll w.flag_eq nofun ⟨w.look, ⟨.refl _, rfl, rfl, fun _ _ => rfl⟩, rfl, rfl⟩
  resolve (w : Twins) name := by
    have hfind := w.mirrors.lookup name w.current_lives
    show reclaiming.Ends _ w (Eval.resolve name w.left) (Eval.resolve name w.right)
    simp only [Eval.resolve, Environment.resolve, w.current_eq]
    generalize w.left.environment.arena.lookup w.left.environment.current name = l at hfind
    generalize w.right.environment.arena.lookup _ name = l' at hfind
    cases hfind with
    | found values => exact Ends.ok (C := reclaiming) w (.refl w) values
    | unbound =>
        cases hb : Builtin.ofName? name with
        | some b => exact Ends.ok (C := reclaiming) w (.refl w) (.builtin b)
        | none => exact Ends.failure (C := reclaiming) w (.refl w) rfl (by rintro ⟨⟩)
  define (w : Twins) name v v' hv := by
    let w' : Twins :=
      { w with
        left := w.left.changeEnvironment (Environment.define name v)
        right := w.right.changeEnvironment (Environment.define name v')
        mirrors := by
          show Arena.Mirrors w.rename (w.left.environment.arena.define _ name v)
            (w.right.environment.arena.define w.right.environment.current name v')
          rw [w.current_eq]
          exact w.mirrors.define w.current_lives name hv
        current_lives := (Arena.contains_define ..).trans w.current_lives
        root_lives := (Arena.contains_define ..).trans w.root_lives }
    exact Ends.ok (C := reclaiming) w' ⟨.define _ _ name v, rfl, rfl, fun _ _ => rfl⟩ trivial
  makeFunction (w : Twins) parameters body := by
    let w' : Twins :=
      { w with
        left :=
          ⟨w.left.environment.capture.2, w.left.printed, w.left.functions + 1, w.left.flag⟩
        right :=
          ⟨w.right.environment.capture.2, w.right.printed, w.right.functions + 1, w.right.flag⟩
        mirrors := w.mirrors.pin _ _
        current_lives := (Arena.contains_pin ..).trans w.current_lives
        root_lives := (Arena.contains_pin ..).trans w.root_lives
        functions_eq := congrArg (· + 1) w.functions_eq }
    refine Ends.ok (C := reclaiming) w' ⟨.of_pinsMore (Arena.pinsMore_pin _ _), rfl, rfl,
      fun _ _ => rfl⟩ (.function ⟨?_, ?_⟩)
    · exact w.mirrors.nested.pinned_pin w.mirrors.pinnedOutward w.current_lives
    · show Function.mk parameters body w.right.environment.current w.right.functions =
        Function.mk parameters body (w.rename w.left.environment.current) w.left.functions
      rw [w.current_eq, w.functions_eq]
  print (w : Twins) text := ⟨w.print text, ⟨.refl _, rfl, rfl, fun _ _ => rfl⟩, rfl, rfl⟩
  inBlock (w : Twins) run other h := by
    have hbody := agree_within w w.current_lives h
    rw [← w.current_eq] at hbody
    exact hbody
  inScope (w : Twins) f g run other hfg h := by
    have hlives := hfg.1.lives
    have hmirror : w.right.environment.arena.contains g.scope = true := by
      rw [hfg.2]
      exact w.mirrors.contains hlives
    have hbody : reclaiming.Ends _ w (Eval.within .prompt f.scope run w.left)
        (Eval.within .never (w.rename f.scope) other w.right) := agree_within w hlives h
    show reclaiming.Ends _ w (Eval.inScope .prompt f.scope run w.left)
      (Eval.inScope .never g.scope other w.right)
    rw [Eval.inScope, Eval.inScope, if_pos hlives, if_pos hmirror, hfg.2]
    exact hbody
  enterCall (w : Twins) := by
    rw [← hdepth]
    exact agree_enterCall _ w.callDepth_eq nofun
      ⟨w.enterCall, ⟨.refl _, rfl, rfl, fun _ _ => rfl⟩, rfl, rfl⟩
  exitCall (w : Twins) := ⟨w.exitCall, ⟨.refl _, rfl, rfl, fun _ _ => rfl⟩, rfl, rfl⟩

/-- The names bound at the root, each with the text of its value. -/
def Machine.rootNames (m : Machine) : List (String × String) :=
  match m.environment.arena.get? m.environment.root with
  | some scope => scope.bindings.map fun bound => (bound.1, bound.2.inspect)
  | none => []

/-- What can be seen when a program has been run: its result, all that has been
printed, and the names bound at the root. -/
structure Observation where
  type : ValueType
  text : String
  error : Option String
  printed : String
  names : List (String × String)

/-- What is seen of a result and the machine it leaves. -/
def observe (v : Value) (m : Machine) : Observation :=
  ⟨v.type, v.inspect, v.error?, m.printed, m.rootNames⟩

/-- A program, the bounds it is run under, and how deeply its calls may nest before
there is no outcome. -/
structure Job where
  program : Program
  context : Context
  allowance : Nat

namespace Job

/-- Run programs one after another on a machine, and tell what is seen after each. -/
def runAll (policy : Reclamation) : List Job → Machine → Option (List Observation × Machine)
  | [], m => some ([], m)
  | job :: jobs, m =>
      match job.program.runUnder policy job.context job.allowance m with
      | none => none
      | some (v, after) =>
          (runAll policy jobs after).map fun (seen, last) => (observe v after :: seen, last)

/-- What is seen of programs that run one after another from the start, with a flag that others
may move meanwhile. -/
def observations (policy : Reclamation) (flag : Flag) (jobs : List Job) :
    Option (List Observation) :=
  (runAll policy jobs (.fresh flag)).map Prod.fst

/-- The error that a program ends with, if any, when it is evaluated after others. -/
def failureAfter (policy : Reclamation) (flag : Flag) (jobs : List Job) (job : Job) :
    Option (Option EvalError) :=
  match runAll policy jobs (.fresh flag) with
  | none => none
  | some (_, m) =>
      match job.program.evalUnder policy job.context job.allowance m with
      | none => none
      | some (.ok _, _) => some none
      | some (.error e, _) => some (some e)

/-- The same job with scopes collected above another number of them. -/
def collectingAbove (n : Nat) (job : Job) : Job :=
  { job with context := { job.context with collectAbove := n } }

/-- Jobs that differ at most in when scopes are collected. -/
def SameButCollection (job job' : Job) : Prop :=
  job.program = job'.program ∧ job.allowance = job'.allowance ∧
    job.context.maxCallDepth = job'.context.maxCallDepth

end Job

theorem AlikeEntries.map_inspect_eq {R : Function → Function → Prop} {κ : Type}
    (hR : ∀ f g, R f g → f.inspect = g.inspect) {es fs : List (κ × Value)}
    (h : AlikeEntries R es fs) :
    es.map (fun e => (e.1, e.2.inspect)) = fs.map (fun e => (e.1, e.2.inspect)) := by
  induction es generalizing fs with
  | nil =>
      obtain ⟨-, rfl⟩ | ⟨k, v, w, es', fs', he, -⟩ := h.cases
      · rfl
      · cases he
  | cons e es ih =>
      obtain ⟨he, -⟩ | ⟨k, v, w, es', fs', he, rfl, head, tail⟩ := h.cases
      · cases he
      · cases he
        simp only [List.map_cons, head.inspect_eq hR, ih tail]

namespace Twins

theorem inspect_eq (w : Twins) (f g : Function) (h : w.Functions f g) :
    f.inspect = g.inspect :=
  inspect_eq_of_functions (C := reclaiming) f g h

theorem rootNames_eq (w : Twins) : w.left.rootNames = w.right.rootNames := by
  obtain ⟨s, hs⟩ := Arena.contains_iff.1 w.root_lives
  obtain ⟨t, ht, -, hbindings⟩ := w.mirrors.scope _ s hs
  simp only [Machine.rootNames, w.root_eq, hs, ht]
  exact hbindings.map_inspect_eq w.inspect_eq

theorem observe_eq (w : Twins) {v v' : Value} (hv : Value.Alike w.Functions v v') :
    observe v w.left = observe v' w.right := by
  rw [observe, observe, hv.type_eq, hv.error?_eq, hv.inspect_eq w.inspect_eq, w.rootNames_eq,
    w.printed_eq]

/-- Twins of which the left one has collected its scopes. -/
def collect (w : Twins) (values : List Value) : Twins :=
  { w with
    left := w.left.changeEnvironment fun env => (env.collectGarbage values).2
    mirrors := w.mirrors.collect ..
    current_lives := (Arena.contains_collect_iff w.mirrors.nested.consistent ..).2
      (.root (List.mem_cons_of_mem _ List.mem_cons_self) w.current_lives)
    root_lives := (Arena.contains_collect_iff w.mirrors.nested.consistent ..).2
      (.root List.mem_cons_self w.root_lives) }

/-- After a program the left twin may collect; twins they remain. -/
theorem exists_collectAfter (w : Twins) (ctx ctx' : Context) {v v' : Value}
    (hv : Value.Alike w.Functions v v') :
    ∃ w' : Twins, w'.left = Program.collectAfter .prompt ctx v w.left ∧
      w'.right = Program.collectAfter .never ctx' v' w.right ∧
      observe v w'.left = observe v' w'.right := by
  simp only [Program.collectAfter]
  split
  · refine ⟨w.collect [v], rfl, rfl, ?_⟩
    have hnames := (w.collect [v]).rootNames_eq
    rw [observe, observe, hv.type_eq, hv.error?_eq, hv.inspect_eq w.inspect_eq, hnames]
    exact congrArg (Observation.mk _ _ _ · _) w.printed_eq.symm
  · exact ⟨w, rfl, rfl, w.observe_eq hv⟩

/-- A program that is run on twins leaves twins that show the same, or gives no outcome
on either. -/
theorem runUnder (w : Twins) {job job' : Job} (h : job.SameButCollection job') :
    (job.program.runUnder .prompt job.context job.allowance w.left = none ∧
      job'.program.runUnder .never job'.context job'.allowance w.right = none) ∨
    ∃ (w' : Twins) (v v' : Value),
      job.program.runUnder .prompt job.context job.allowance w.left = some (v, w'.left) ∧
      job'.program.runUnder .never job'.context job'.allowance w.right = some (v', w'.right) ∧
      observe v w'.left = observe v' w'.right := by
  obtain ⟨hprogram, hallowance, hdepth⟩ := h
  have hends : reclaiming.Ends reclaiming.Values w
      (job.program.evalUnder .prompt job.context job.allowance w.left)
      (job.program.evalUnder .never job'.context job.allowance w.right) :=
    (keptBy_reclaiming hdepth).evalUnder job.allowance job.program w
  rw [Program.runUnder, Program.runUnder, ← hprogram, ← hallowance]
  generalize job.program.evalUnder .prompt job.context job.allowance w.left = x at hends
  generalize job.program.evalUnder .never job'.context job.allowance w.right = y at hends
  cases hends with
  | never => exact .inl ⟨rfl, rfl⟩
  | ok w₁ later results =>
      obtain ⟨w', hl, hr, hseen⟩ := exists_collectAfter w₁ job.context job'.context results
      exact .inr ⟨w', _, _, by rw [hl]; rfl, by rw [hr]; rfl, hseen⟩
  | returning w₁ later values =>
      obtain ⟨w', hl, hr, hseen⟩ := exists_collectAfter w₁ job.context job'.context values
      exact .inr ⟨w', _, _, by rw [hl]; rfl, by rw [hr]; rfl, hseen⟩
  | @failure e w₁ later failed allowed =>
      have hvalue : Value.Alike w₁.Functions e.toValue e.toValue := by
        cases e with
        | returning v => cases failed
        | _ => exact .error _
      obtain ⟨w', hl, hr, hseen⟩ := exists_collectAfter w₁ job.context job'.context hvalue
      exact .inr ⟨w', _, _, by rw [hl]; rfl, by rw [hr]; rfl, hseen⟩
  | abandoned given => exact given.elim

theorem runAll {jobs jobs' : List Job} (h : List.Forall₂ Job.SameButCollection jobs jobs')
    (w : Twins) :
    (Job.runAll .prompt jobs w.left = none ∧ Job.runAll .never jobs' w.right = none) ∨
    ∃ (w' : Twins) (seen : List Observation),
      Job.runAll .prompt jobs w.left = some (seen, w'.left) ∧
      Job.runAll .never jobs' w.right = some (seen, w'.right) := by
  induction h generalizing w with
  | nil => exact .inr ⟨w, [], rfl, rfl⟩
  | cons head tail ih =>
      simp only [Job.runAll]
      obtain ⟨hl, hr⟩ | ⟨w', v, v', hl, hr, hseen⟩ := w.runUnder head
      · rw [hl, hr]
        exact .inl ⟨rfl, rfl⟩
      · rw [hl, hr]
        obtain ⟨hl', hr'⟩ | ⟨w'', seen, hl', hr'⟩ := ih w'
        · exact .inl ⟨by simp [hl'], by simp [hr']⟩
        · exact .inr ⟨w'', observe v w'.left :: seen, by simp [hl'], by simp [hr', hseen]⟩

theorem eq_of_get?_initial {id : ScopeId} {s : Scope}
    (hs : Machine.initial.environment.arena.get? id = some s) : s = ⟨[], none, true⟩ := by
  obtain ⟨_ | slot, generation⟩ := id
  · obtain ⟨-, h⟩ := Option.ite_none_right_eq_some.1 hs
    exact (Option.some.inj h).symm
  · cases hs

theorem nested_initial : Machine.initial.environment.arena.Nested := by
  refine ⟨Arena.consistent_pin (Arena.consistent_alloc Arena.consistent_empty none) ⟨0, 0⟩,
    fun id s outer hs ho => ?_, fun _ => 0, fun id s outer hs ho => ?_⟩
  · cases eq_of_get?_initial hs
    cases ho
  · cases eq_of_get?_initial hs
    cases ho

def initial (flag : Flag) : Twins where
  left := .fresh flag
  right := .fresh flag
  rename id := id
  mirrors := by
    refine ⟨nested_initial, fun id s outer hs hp ho => ?_, nested_initial, fun _ _ _ _ h => h,
      fun id s hs => ⟨s, hs, ?_, ?_⟩⟩
    · cases eq_of_get?_initial hs
      cases ho
    · cases eq_of_get?_initial hs
      rfl
    · cases eq_of_get?_initial hs
      exact .nil
  current_lives := rfl
  root_lives := rfl
  current_eq := rfl
  root_eq := rfl
  callDepth_eq := rfl
  printed_eq := rfl
  functions_eq := rfl
  flag_eq := rfl

end Twins

theorem Job.sameButCollection_refl (job : Job) : job.SameButCollection job :=
  ⟨rfl, rfl, rfl⟩

namespace Job

theorem observations_eq (flag : Flag) {jobs jobs' : List Job}
    (h : List.Forall₂ SameButCollection jobs jobs') :
    observations .prompt flag jobs = observations .never flag jobs' := by
  obtain ⟨hl, hr⟩ | ⟨w, seen, hl, hr⟩ := (Twins.initial flag).runAll h
  · show (runAll .prompt jobs (Twins.initial flag).left).map _ =
      (runAll .never jobs' (Twins.initial flag).right).map _
    rw [hl, hr]
  · show (runAll .prompt jobs (Twins.initial flag).left).map _ =
      (runAll .never jobs' (Twins.initial flag).right).map _
    rw [hl, hr]
    rfl

theorem sameButCollection_mapIdx (thresholds : Nat → Nat) (jobs : List Job) :
    List.Forall₂ SameButCollection
      (jobs.mapIdx fun i job => job.collectingAbove (thresholds i)) jobs := by
  induction jobs generalizing thresholds with
  | nil => exact .nil
  | cons job jobs ih =>
      rw [List.mapIdx_cons]
      exact .cons ⟨rfl, rfl, rfl⟩ (ih fun i => thresholds (i + 1))

/-- After programs that have run, a program fails alike on both sides, and not because
a scope is gone. -/
theorem failureAfter_eq (flag : Flag) (jobs : List Job) (job : Job) :
    failureAfter .prompt flag jobs job = failureAfter .never flag jobs job ∧
      failureAfter .prompt flag jobs job ≠ some (some .danglingScope) := by
  have hrefl : List.Forall₂ SameButCollection jobs jobs :=
    List.forall₂_same.2 fun job _ => job.sameButCollection_refl
  simp only [failureAfter]
  obtain ⟨hl, hr⟩ | ⟨w, seen, hl, hr⟩ := (Twins.initial flag).runAll hrefl
  · rw [show runAll .prompt jobs (.fresh flag) = none from hl,
      show runAll .never jobs (.fresh flag) = none from hr]
    exact ⟨rfl, by rintro ⟨⟩⟩
  · rw [show runAll .prompt jobs (.fresh flag) = _ from hl,
      show runAll .never jobs (.fresh flag) = _ from hr]
    dsimp only
    have hends : reclaiming.Ends reclaiming.Values w
        (job.program.evalUnder .prompt job.context job.allowance w.left)
        (job.program.evalUnder .never job.context job.allowance w.right) :=
      (keptBy_reclaiming rfl).evalUnder job.allowance job.program w
    generalize hx : job.program.evalUnder .prompt job.context job.allowance w.left = x at hends
    generalize job.program.evalUnder .never job.context job.allowance w.right = y at hends
    cases hends with
    | never => exact ⟨rfl, by rintro ⟨⟩⟩
    | ok w' later results => exact ⟨rfl, by rintro ⟨⟩⟩
    | returning w' later values => exact (Eval.endReturn_ne_returning hx).elim
    | failure w' later failed allowed =>
        exact ⟨rfl, fun h => allowed (Option.some.inj (Option.some.inj h))⟩
    | abandoned given => exact given.elim

/-- What programs show does not depend on whether scopes are reclaimed, nor on how many
may live before they are collected; and no program finds a scope gone. Somebody may ask the
programs to stop at any point. -/
theorem reclamation_invisible (flag : Flag) (jobs : List Job) :
    observations .prompt flag jobs = observations .never flag jobs ∧
      (∀ thresholds : Nat → Nat,
        observations .prompt flag (jobs.mapIdx fun i job => job.collectingAbove (thresholds i)) =
          observations .prompt flag jobs) ∧
      ∀ job, failureAfter .prompt flag jobs job = failureAfter .never flag jobs job ∧
        failureAfter .prompt flag jobs job ≠ some (some .danglingScope) := by
  have hprompt : observations .prompt flag jobs = observations .never flag jobs :=
    observations_eq flag (List.forall₂_same.2 fun job _ => job.sameButCollection_refl)
  refine ⟨hprompt, fun thresholds => ?_, fun job => failureAfter_eq flag jobs job⟩
  exact (observations_eq flag (sameButCollection_mapIdx thresholds jobs)).trans hprompt.symm

end Job

end Treewalk
