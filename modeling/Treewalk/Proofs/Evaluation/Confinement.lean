import Treewalk.Proofs.Evaluation.Occupancy
import Treewalk.Proofs.Scope.Agreement
import Treewalk.Proofs.Value.Entries

/-!
Calls are lexically scoped. A call is made on two machines whose stores agree outside of
the scopes that the function and its arguments do not lead to. The scope that is current
plays no part in it, and a scope that is not led to is never entered, looked into or
changed: the two calls end alike, print the same, and leave stores that agree again.
-/

namespace Treewalk

/-- Two machines in the same scope, whose stores agree outside of a set of scopes, and on
which the same has been printed after the given texts. -/
structure Confined (secret : ScopeId → Prop) (before before' : String) where
  left : Machine
  right : Machine
  agree : Arena.AgreeOutside secret left.environment.arena right.environment.arena
  current_outside : ¬ secret left.environment.current
  current_eq : right.environment.current = left.environment.current
  callDepth_eq : right.environment.callDepth = left.environment.callDepth
  functions_eq : right.functions = left.functions
  flag_eq : right.flag = left.flag
  printed : String
  left_printed : left.printed = before ++ printed
  right_printed : right.printed = before' ++ printed

namespace Confined

variable {secret : ScopeId → Prop} {before before' : String} (w : Confined secret before before')

def print (text : String) : Confined secret before before' :=
  { w with
    left := { w.left with printed := w.left.printed ++ text }
    right := { w.right with printed := w.right.printed ++ text }
    printed := w.printed ++ text
    left_printed := by rw [w.left_printed, String.append_assoc]
    right_printed := by rw [w.right_printed, String.append_assoc] }

def look : Confined secret before before' :=
  { w with
    left := w.left.look
    right := w.right.look
    flag_eq := congrArg Flag.looked w.flag_eq }

def define (name : String) {v : Value} (hv : Value.Alike (Function.OutsideOf secret) v v) :
    Confined secret before before' :=
  { w with
    left := w.left.changeEnvironment (Environment.define name v)
    right := w.right.changeEnvironment (Environment.define name v)
    agree := by
      show Arena.AgreeOutside secret (w.left.environment.arena.define _ name v)
        (w.right.environment.arena.define w.right.environment.current name v)
      rw [w.current_eq]
      exact w.agree.define _ name hv }

def capture : Confined secret before before' :=
  { w with
    left := ⟨w.left.environment.capture.2, w.left.printed, w.left.functions + 1, w.left.flag⟩
    right :=
      ⟨w.right.environment.capture.2, w.right.printed, w.right.functions + 1, w.right.flag⟩
    agree := by
      show Arena.AgreeOutside secret (w.left.environment.arena.pin _)
        (w.right.environment.arena.pin w.right.environment.current)
      rw [w.current_eq]
      exact w.agree.pin _
    functions_eq := congrArg (· + 1) w.functions_eq }

def enterCall : Confined secret before before' :=
  { w with
    left := w.left.changeEnvironment fun env => { env with callDepth := env.callDepth + 1 }
    right := w.right.changeEnvironment fun env => { env with callDepth := env.callDepth + 1 }
    callDepth_eq := congrArg (· + 1) w.callDepth_eq }

def exitCall : Confined secret before before' :=
  { w with
    left := w.left.changeEnvironment Environment.exitCall
    right := w.right.changeEnvironment Environment.exitCall
    callDepth_eq := congrArg (· - 1) w.callDepth_eq }

def enter {outer : ScopeId} (houter : ¬ secret outer) : Confined secret before before' :=
  { w with
    left := (Eval.enter outer w.left).2
    right := (Eval.enter outer w.right).2
    agree := w.agree.alloc (some outer) fun _ ho => by cases ho; exact houter
    current_outside := w.agree.not_secret_alloc (some outer)
    current_eq := (w.agree.alloc_eq (some outer)).1.symm }

/-- The scope that is current is left for one outside of the set. -/
def leave {previous : ScopeId} (hprevious : ¬ secret previous) : Confined secret before before' :=
  { w with
    left := Eval.leave .prompt previous w.left
    right := Eval.leave .prompt previous w.right
    agree := by
      show Arena.AgreeOutside secret (w.left.environment.arena.release _)
        (w.right.environment.arena.release w.right.environment.current)
      rw [w.current_eq]
      exact w.agree.release w.current_outside
    current_outside := hprevious
    current_eq := rfl }

end Confined

/-- The comparison of two machines that agree outside of a set of scopes. Functions that
have captured no scope of the set answer to themselves. -/
def confining (secret : ScopeId → Prop) (before before' : String) : Comparison where
  World := Confined secret before before'
  left := Confined.left
  right := Confined.right
  later w w' := w'.left.environment.current = w.left.environment.current
  functions _ := Function.OutsideOf secret
  allows _ := True
  abandons _ := False
  later_refl _ := rfl
  later_trans h k := k.trans h
  functions_later _ _ _ h := h
  functions_syntax h := by rw [h.1]; exact ⟨rfl, rfl⟩
  not_abandons_returning _ h := h

open Comparison

section

variable {secret : ScopeId → Prop} {before before' : String}

theorem agree_within_confined (w : Confined secret before before') {outer : ScopeId}
    (houter : ¬ secret outer) {run other : Eval Value}
    (h : ∀ w' : Confined secret before before',
      (confining secret before before').Agree (confining secret before before').Values w' run
        other) :
    (confining secret before before').Agree (confining secret before before').Values w
      (Eval.within .prompt outer run) (Eval.within .prompt outer other) := by
  refine Comparison.agree_within (w.enter houter) rfl rfl (h _) fun w' _ => ?_
  refine ⟨w'.leave w.current_outside, rfl, rfl, ?_, fun _ _ hfg => hfg⟩
  show Eval.leave .prompt w.left.environment.current w'.right =
    Eval.leave .prompt w.right.environment.current w'.right
  rw [w.current_eq]

theorem keptBy_confining (ctx : Context) :
    (confining secret before before').KeptBy .prompt .prompt ctx ctx where
  allows_fault _ _ := trivial
  poll (w : Confined secret before before') :=
    agree_poll w.flag_eq trivial ⟨w.look, rfl, rfl, rfl⟩
  resolve (w : Confined secret before before') name := by
    obtain ⟨hsame, hfound⟩ := w.agree.lookup name w.current_outside
    show (confining secret before before').Ends _ w (Eval.resolve name w.left)
      (Eval.resolve name w.right)
    simp only [Eval.resolve, Environment.resolve, w.current_eq, hsame]
    cases hl : w.left.environment.arena.lookup w.left.environment.current name with
    | found v =>
        exact Ends.ok (C := confining secret before before') w rfl (hfound v hl)
    | unbound =>
        cases hb : Builtin.ofName? name with
        | some b => exact Ends.ok (C := confining secret before before') w rfl (.builtin b)
        | none => exact Ends.failure (C := confining secret before before') w rfl rfl trivial
    | dangling => exact Ends.failure (C := confining secret before before') w rfl rfl trivial
  define (w : Confined secret before before') name v v' hv := by
    obtain rfl : v = v' := hv.eq fun _ _ hfg => hfg.1
    exact Ends.ok (C := confining secret before before') (w.define name hv) rfl trivial
  makeFunction (w : Confined secret before before') parameters body := by
    refine Ends.ok (C := confining secret before before') w.capture rfl (.function ⟨?_, ?_⟩)
    · show Function.mk parameters body w.left.environment.current w.left.functions =
        Function.mk parameters body w.right.environment.current w.right.functions
      rw [w.current_eq, w.functions_eq]
    · exact w.current_outside
  print (w : Confined secret before before') text := ⟨w.print text, rfl, rfl, rfl⟩
  inBlock (w : Confined secret before before') run other h := by
    have hbody := agree_within_confined w w.current_outside fun w' => h w' fun _ _ hfg => hfg
    show (confining secret before before').Ends _ w
      (Eval.within .prompt w.left.environment.current run w.left)
      (Eval.within .prompt w.right.environment.current other w.right)
    rw [w.current_eq]
    exact hbody
  inScope (w : Confined secret before before') f g run other hfg h := by
    obtain ⟨rfl, houtside⟩ := hfg
    have hlives : w.right.environment.arena.contains f.scope =
        w.left.environment.arena.contains f.scope :=
      (Arena.contains_eq_of_shape w.agree.shape_eq f.scope).symm
    have hbody := agree_within_confined w houtside fun w' => h w' fun _ _ hfg => hfg
    show (confining secret before before').Ends _ w (Eval.inScope .prompt f.scope run w.left)
      (Eval.inScope .prompt f.scope other w.right)
    rw [Eval.inScope, Eval.inScope, hlives]
    split
    · exact hbody
    · exact Ends.failure (C := confining secret before before') w rfl rfl trivial
  enterCall (w : Confined secret before before') :=
    agree_enterCall _ w.callDepth_eq (fun _ _ => trivial) ⟨w.enterCall, rfl, rfl, rfl⟩
  exitCall (w : Confined secret before before') := ⟨w.exitCall, rfl, rfl, rfl⟩

end

/-! The current scope plays no part in a call. -/

/-- The machine with another scope current. -/
def Machine.standingIn (id : ScopeId) (m : Machine) : Machine :=
  m.changeEnvironment fun env => { env with current := id }

/-- A run that comes to the same wherever it stands, and stays there. -/
def Eval.StandsAnywhere {α : Type} (run : Eval α) : Prop :=
  ∀ m id, run (m.standingIn id) =
    (run m).map fun ended => (ended.1, ended.2.standingIn id)

namespace Eval.StandsAnywhere

variable {α β : Type} {run : Eval α}

theorem bind {next : α → Eval β} (h : StandsAnywhere run) (hnext : ∀ a, StandsAnywhere (next a)) :
    StandsAnywhere (run >>= next) := by
  intro m id
  rw [Run.bind_apply, Run.bind_apply, h]
  obtain hm | ⟨a, t, hm⟩ | ⟨e, t, hm⟩ := Run.ended (run m) <;> rw [hm]
  · rfl
  · exact hnext a t id
  · rfl

theorem outcome (h : StandsAnywhere run) : StandsAnywhere (Run.outcome run) := by
  intro m id
  rw [Run.outcome, Run.outcome, h]
  cases run m <;> rfl

theorem endReturn {run : Eval Value} (h : StandsAnywhere run) :
    StandsAnywhere (Eval.endReturn run) := by
  intro m id
  rw [Eval.endReturn, Eval.endReturn, h]
  obtain hm | ⟨a, t, hm⟩ | ⟨e, t, hm⟩ := Run.ended (run m) <;> rw [hm]
  · rfl
  · rfl
  · cases e <;> rfl

theorem inScope (outer : ScopeId) (run : Eval α) :
    StandsAnywhere (Eval.inScope .prompt outer run) := by
  intro m id
  have hlives : (m.standingIn id).environment.arena.contains outer =
      m.environment.arena.contains outer := rfl
  have hinside : (Eval.enter outer (m.standingIn id)).2 = (Eval.enter outer m).2 := rfl
  rw [Eval.inScope, Eval.inScope, hlives]
  split
  · rw [Eval.within_apply, Eval.within_apply, hinside, Option.map_map]
    rfl
  · rfl

theorem enterCall (limit : Option Nat) : StandsAnywhere (Eval.enterCall limit) := by
  intro m id
  cases limit with
  | none => rfl
  | some max =>
      have hdepth : (m.standingIn id).environment.callDepth = m.environment.callDepth := rfl
      rw [Eval.enterCall_some, Eval.enterCall_some, hdepth]
      split <;> rfl

end Eval.StandsAnywhere

theorem callValue_standsAnywhere (ctx : Context) (allowance : Nat) (callee : Value)
    (args : List Value) :
    Eval.StandsAnywhere (callValue .prompt ctx allowance callee args) := by
  cases callee with
  | function f =>
      cases allowance with
      | zero =>
          rw [callValue]
          split
          · exact (Eval.StandsAnywhere.enterCall _).bind fun _ _ _ => rfl
          · exact fun _ _ => rfl
      | succ rest =>
          rw [callValue]
          split
          · refine (Eval.StandsAnywhere.enterCall _).bind fun _ => .endReturn ?_
            refine (Eval.StandsAnywhere.inScope _ _).outcome.bind fun result => ?_
            exact .bind (fun _ _ => rfl) fun _ _ _ => rfl
          · exact fun _ _ => rfl
  | builtin b => cases allowance <;> exact fun _ _ => rfl
  | integer | boolean | string | null | array | hash | error =>
      cases allowance <;> exact fun _ _ => rfl

/-! Calls on environments that differ in what is not led to. -/

/-- The scopes that live and that neither the function nor the arguments lead to. -/
def Arena.LeftOut (a : Arena) (values : List Value) (id : ScopeId) : Prop :=
  a.contains id = true ∧ ¬ a.Reaches [] values id

theorem Arena.outsideOf_leftOut {a : Arena} {values : List Value} {f : Function}
    (h : a.contains f.scope = true → a.Reaches [] values f.scope) :
    Function.OutsideOf (a.LeftOut values) f f :=
  ⟨rfl, fun hleft => hleft.2 (h hleft.1)⟩

/-- Stores of one shape that hold the same in what values lead to agree outside of what
they do not lead to. -/
theorem Arena.agreeOutside_leftOut {a b : Arena} {values : List Value} (hc : a.Consistent)
    (hshape : a.shape = b.shape) (hsame : ∀ id, a.Reaches [] values id → a.SameAt b id) :
    AgreeOutside (a.LeftOut values) a b := by
  have hreached : ∀ id s, ¬ a.LeftOut values id → a.get? id = some s →
      a.Reaches [] values id := fun id s hid hs => by
    by_contra hnot
    exact hid ⟨contains_iff.2 ⟨s, hs⟩, hnot⟩
  refine ⟨hshape, hc, fun id hid => hid.1, fun id s outer hid hs ho => ?_,
    fun id s t hid hs ht => ?_, fun id s name v hid hs hv => ?_⟩
  · rintro ⟨hlives, hnot⟩
    exact hnot (.outer (hreached id s hid hs) hs ho hlives)
  · have hid' := hsame id (hreached id s hid hs)
    rw [SameAt, hs, ht] at hid'
    cases hid' with
    | some same => exact same.get?_eq
  · refine .refl_of_holds v fun f inside => outsideOf_leftOut fun hlives => ?_
    exact .captured (hreached id s hid hs) hs (Entries.mem_of_get? hv) inside hlives

/-- What two calls come to on two machines: neither ends, or both end with one result,
have printed the same, and leave stores of one shape that hold the same in the given
scopes, each in the scope it was made from. -/
inductive CallsAlike (inside : ScopeId → Prop) (m m' : Machine) :
    Option (Except EvalError Value × Machine) → Option (Except EvalError Value × Machine) →
      Prop where
  | never : CallsAlike inside m m' none none
  | ended {result : Except EvalError Value} {after after' : Machine} (text : String)
      (printed_eq : after.printed = m.printed ++ text)
      (printed_eq' : after'.printed = m'.printed ++ text)
      (shape_eq : after'.environment.arena.shape = after.environment.arena.shape)
      (same : ∀ id, inside id → after.environment.arena.SameAt after'.environment.arena id)
      (current_eq : after.environment.current = m.environment.current)
      (current_eq' : after'.environment.current = m'.environment.current) :
      CallsAlike inside m m' (some (result, after)) (some (result, after'))

theorem CallsAlike.of_ends {secret : ScopeId → Prop} {m m' : Machine}
    {w : Confined secret m.printed m'.printed}
    {x y : Option (Except EvalError Value × Machine)}
    (h : (confining secret m.printed m'.printed).Ends
      (confining secret m.printed m'.printed).Values w x y) :
    CallsAlike (fun id => ¬ secret id) m m'
      (x.map fun ended => (ended.1, ended.2.standingIn m.environment.current))
      (y.map fun ended => (ended.1, ended.2.standingIn m'.environment.current)) := by
  have hended : ∀ (w' : Confined secret m.printed m'.printed) result,
      CallsAlike (fun id => ¬ secret id) m m'
        (some (result, w'.left.standingIn m.environment.current))
        (some (result, w'.right.standingIn m'.environment.current)) :=
    fun w' _ => .ended w'.printed w'.left_printed w'.right_printed w'.agree.shape_eq.symm
      (fun _ hid => w'.agree.sameAt hid) rfl rfl
  have heq : ∀ {v v'}, Value.Alike (Function.OutsideOf secret) v v' → v = v' :=
    fun hv => hv.eq fun _ _ hfg => hfg.1
  cases h with
  | never => exact .never
  | ok w' later values =>
      cases heq values
      exact hended w' _
  | returning w' later values =>
      cases heq values
      exact hended w' _
  | failure w' later failed allowed => exact hended w' _
  | abandoned given => exact given.elim

/-- A call comes to the same in two environments of one shape, that of some state, if they
hold the same in all scopes that the function and the arguments lead to; whatever they
hold in others, and whichever scopes are current. Generations may be counted in a word of
any size. -/
theorem callValue_lexical (span : Nat) (ctx : Context) (allowance : Nat) (callee : Value)
    (args : List Value) (functions : Nat) (flag : Flag) (printed printed' : String)
    (env env' : Environment)
    (hstate : ∃ g : Guarded, g.Reached span ∧ env.arena.shape = g.arena.shape)
    (hshape : env'.arena.shape = env.arena.shape) (hdepth : env'.callDepth = env.callDepth)
    (hsame : ∀ id, env.arena.Reaches [] (callee :: args) id → env.arena.SameAt env'.arena id) :
    CallsAlike (fun id => ¬ env.arena.LeftOut (callee :: args) id)
      ⟨env, printed, functions, flag⟩ ⟨env', printed', functions, flag⟩
      (callValue .prompt ctx allowance callee args ⟨env, printed, functions, flag⟩)
      (callValue .prompt ctx allowance callee args ⟨env', printed', functions, flag⟩) := by
  obtain ⟨g, hg, hgshape⟩ := hstate
  have hc : env.arena.Consistent := hg.founded.consistent.of_shape hgshape.symm
  have hagree := Arena.agreeOutside_leftOut hc hshape.symm hsame
  have hvalues : ∀ v ∈ callee :: args, ∀ f, v.Holds f →
      Function.OutsideOf (env.arena.LeftOut (callee :: args)) f f :=
    fun v mem f inside => Arena.outsideOf_leftOut fun hlives => .held mem inside hlives
  -- both calls may as well be made from a name that no scope has
  let nowhere := (env.arena.alloc none).1
  let w : Confined (env.arena.LeftOut (callee :: args)) printed printed' :=
    { left := Machine.standingIn nowhere ⟨env, printed, functions, flag⟩
      right := Machine.standingIn nowhere ⟨env', printed', functions, flag⟩
      agree := hagree
      current_outside := hagree.not_secret_alloc none
      current_eq := rfl
      callDepth_eq := hdepth
      functions_eq := rfl
      flag_eq := rfl
      printed := ""
      left_printed := String.append_empty.symm
      right_printed := String.append_empty.symm }
  have hcall := (keptBy_confining ctx).callValue allowance w
    (.refl_of_holds callee (hvalues callee List.mem_cons_self))
    (.refl_of_holds args fun v mem => hvalues v (List.mem_cons_of_mem _ mem))
  have hleft : callValue .prompt ctx allowance callee args ⟨env, printed, functions, flag⟩ = _ :=
    callValue_standsAnywhere ctx allowance callee args w.left env.current
  have hright :
      callValue .prompt ctx allowance callee args ⟨env', printed', functions, flag⟩ = _ :=
    callValue_standsAnywhere ctx allowance callee args w.right env'.current
  rw [hleft, hright]
  exact CallsAlike.of_ends hcall

/-- A function made at the root is called from a block and from the root itself, while the
root has bound its names in one order or the other and the block binds one value or another. -/
theorem callValue_lexical_block :
    let root : ScopeId := ⟨0, 0⟩
    let callee : Value :=
      .function ⟨[], ⟨⟨.lbrace, "\x7b"⟩, [.expr ⟨.ident, "x"⟩ (.name ⟨.ident, "x"⟩)]⟩, root, 0⟩
    let x := Environment.Change.define "x" (.boolean true)
    let z := Environment.Change.define "z" .null
    let state (bindings : List Environment.Change) (b : Bool) : Guarded :=
      Guarded.initial.run (bindings ++ [.enterBlock, .define "y" (.boolean b)])
    let env := (state [x, z] true).environment
    let env' := { (state [z, x] false).environment with current := root }
    let flag := Flag.fixed false
    CallsAlike (fun id => ¬ env.arena.LeftOut [callee] id) ⟨env, "", 1, flag⟩ ⟨env', "", 1, flag⟩
        (callValue .prompt {} 1 callee [] ⟨env, "", 1, flag⟩)
        (callValue .prompt {} 1 callee [] ⟨env', "", 1, flag⟩) ∧
      ∃ after, callValue .prompt {} 1 callee [] ⟨env, "", 1, flag⟩ =
        some (.ok (.boolean true), after) := by
  intro root callee x z state env env' flag
  have hstate : (state [x, z] true).Reached 1 := Guarded.Reached.start.leads (.run .start _)
  have hroot : env.arena.get? root = some ⟨[("x", .boolean true), ("z", .null)], none, true⟩ := rfl
  have hroot' : env'.arena.get? root =
    some ⟨[("z", .null), ("x", .boolean true)], none, true⟩ := rfl
  have hreached : ∀ id, env.arena.Reaches [] [callee] id → id = root := fun id hid =>
    List.mem_singleton.1 (hid.mem_of_closed (List.nil_subset [root]) (by decide) (by decide))
  have hsame : env.arena.SameAt env'.arena root := by
    rw [Arena.SameAt, hroot, hroot']
    refine .some ⟨rfl, rfl, fun name => ?_⟩
    by_cases hx : "x" = name
    · subst hx
      rfl
    · by_cases hz : "z" = name <;> simp [Entries.get?, hx, hz]
  have hshape : env'.arena.shape = env.arena.shape := by
    let store (bindings : List (String × Value)) (b : Bool) : Arena :=
      ⟨#[⟨0, some ⟨bindings, none, true⟩⟩, ⟨0, some ⟨[("y", .boolean b)], some root, false⟩⟩],
        [], 2⟩
    show (store [("z", .null), ("x", .boolean true)] false).shape =
      (store [("x", .boolean true), ("z", .null)] true).shape
    simp [store, Arena.shape, Slot.shape, Scope.shape]
  refine ⟨callValue_lexical 1 {} 1 callee [] 1 flag "" "" env env' ⟨_, hstate, rfl⟩ hshape rfl
    fun id hid => ?_, _, rfl⟩
  rw [hreached id hid]
  exact hsame

end Treewalk
