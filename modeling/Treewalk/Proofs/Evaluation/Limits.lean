import Treewalk.Proofs.Evaluation.Termination

/-!
The limit on nested calls. It refuses calls and does nothing else, and nothing in the
language catches the refusal: so an evaluation that is not ended by it is the same under
every wider limit. Every call that an evaluation begins is begun under the limit, so calls
are never nested more deeply than it allows; and the call that is refused is the next one.
-/

namespace Treewalk

open Environment (Change)

/-- The one limit allows no more than the other; no limit is the widest. -/
def NoWider : Option Nat → Option Nat → Prop
  | _, none => True
  | none, some _ => False
  | some limit, some other => limit ≤ other

/-- What begins under a limit begins under a wider one. -/
theorem Eval.follows_enterCall {limit other : Option Nat} (h : NoWider limit other) :
    Eval.Follows (fun e => e.isOverflow = true) (Eval.enterCall limit) (Eval.enterCall other) := by
  intro m r after hrun hkept
  cases limit with
  | none =>
      cases other with
      | none => exact hrun
      | some _ => cases h
  | some limit =>
      rw [Eval.enterCall_some] at hrun
      split at hrun
      · cases hrun
        exact absurd rfl (hkept _ rfl)
      · rename_i hbegins
        cases other with
        | none => exact hrun
        | some other =>
            have hle : limit ≤ other := h
            rw [Eval.enterCall_some, if_neg (by omega)]
            exact hrun

/-! Calls are begun under the limit. -/

/-- The calls that are begun are begun under the given limit. -/
def Journal.Under (limit : Option Nat) (journal : Journal) : Prop :=
  ∀ m other, .changed (.enterCall other) ∈ journal m → other = limit

namespace Journal

variable {limit : Option Nat} {journal : Journal} {α : Type}

theorem under_still : Under limit still :=
  fun _ _ h => nomatch h

theorem under_one {event : Event} (h : ∀ other, event ≠ .changed (.enterCall other)) :
    Under limit (one event) := by
  intro m other hmem
  exact absurd (List.mem_singleton.1 hmem).symm (h other)

theorem Under.andThen {run : Eval α} {next : α → Journal} (h : Under limit journal)
    (hnext : ∀ a, Under limit (next a)) : Under limit (andThen run journal next) := by
  intro m other hmem
  rcases List.mem_append.1 hmem with hfirst | hrest
  · exact h m other hfirst
  · obtain hm | ⟨a, t, hm⟩ | ⟨e, t, hm⟩ := Run.ended (run m) <;> rw [hm] at hrest
    · cases hrest
    · exact hnext a t other hrest
    · cases hrest

theorem eq_of_mem_ending {c : Change} {event : Event} {ended : Option α}
    (h : event ∈ ending c ended) : event = .changed c := by
  cases ended with
  | none => cases h
  | some _ => exact List.mem_singleton.1 h

theorem Under.within {c : Change} (hc : ∀ other, c ≠ .enterCall other) {outer : ScopeId}
    {run : Eval α} (h : Under limit journal) : Under limit (within c outer run journal) := by
  intro m other hmem
  rcases List.mem_cons.1 hmem with heq | hinside
  · cases heq
    exact absurd rfl (hc other)
  · rcases List.mem_append.1 hinside with hbody | hleave
    · exact h _ other hbody
    · cases eq_of_mem_ending hleave

theorem Under.inScope {outer : ScopeId} {run : Eval α} (h : Under limit journal) :
    Under limit (inScope outer run journal) := by
  intro m other hmem
  rw [Journal.inScope] at hmem
  split at hmem
  · exact h.within (by rintro _ ⟨⟩) m other hmem
  · cases hmem

theorem Under.inCall {run : Eval α} (h : Under limit journal) :
    Under limit (inCall limit run journal) := by
  intro m other hmem
  rw [Journal.inCall] at hmem
  split at hmem
  · rcases List.mem_cons.1 hmem with heq | hinside
    · cases heq
      rfl
    · rcases List.mem_append.1 hinside with hbody | hexit
      · exact h _ other hbody
      · cases eq_of_mem_ending hexit
  · cases hmem

theorem Under.ofNode (h : Under limit journal) (ctx : Context) (allowance : Nat) (node : Task) :
    Under limit (ofNode ctx allowance node journal) := by
  intro m other hmem
  rcases List.mem_cons.1 hmem with heq | hinside
  · cases heq
  · rcases List.mem_append.1 hinside with hbody | hends
    · exact h m other hbody
    · generalize node.evalUnder ctx allowance m = ended at hends
      cases ended with
      | none => cases hends
      | some ended => cases List.mem_singleton.1 hends

end Journal

/-- Calls are begun under the limit of the context. -/
def limiting (ctx : Context) : Chronicle ctx where
  Fits _ _ journal := journal.Under ctx.maxCallDepth
  still _ := Journal.under_still
  poll _ := Journal.under_still
  print _ _ _ := Journal.under_one nofun
  define _ _ := Journal.under_one nofun
  capture _ _ _ := Journal.under_one nofun
  andThen h hnext := h.andThen hnext
  inBlock h m := h.within (c := .enterBlock) (by rintro _ ⟨⟩) m
  inScope _ h := h.inScope
  inCall h := h.inCall
  endReturn h := h
  ofNode allowance node h := h.ofNode ctx allowance node

/-- Whatever is evaluated, the calls that it begins are begun under the limit. -/
theorem Task.eq_of_enterCall_mem_trace {ctx : Context} {allowance : Nat} {task : Task}
    {m : Machine} {other : Option Nat} (h : .enterCall other ∈ task.trace ctx allowance m) :
    other = ctx.maxCallDepth := by
  obtain ⟨event, hmem, hchange⟩ := List.mem_filterMap.1 h
  cases event with
  | changed c =>
      cases hchange
      exact (limiting ctx).fits_evalUnder allowance task m other hmem
  | began | ended | printed => cases hchange

namespace Guarded

variable {g : Guarded} {limit : Nat}

theorem callDepth_apply_le (h : g.environment.callDepth ≤ limit) {c : Change}
    (hc : ∀ other, c = .enterCall other → other = some limit) :
    (g.apply c).environment.callDepth ≤ limit := by
  cases c with
  | define | enterBlock | capture => exact h
  | enterScope outer =>
      rw [apply, Environment.enterLive]
      split
      · rename_i inside heq
        split at heq <;> cases heq
        exact h
      · exact h
  | leave =>
      rw [apply]
      split <;> exact h
  | enterCall other =>
      cases hc other rfl
      rw [apply, Environment.enterCall]
      by_cases hfull : limit ≤ g.environment.callDepth
      · rw [if_pos hfull]
        exact h
      · rw [if_neg hfull]
        exact Nat.lt_of_not_le hfull
  | exitCall => exact (Nat.sub_le _ _).trans h

theorem callDepth_run_le (h : g.environment.callDepth ≤ limit) {changes : List Change}
    (hchanges : ∀ other, .enterCall other ∈ changes → other = some limit) :
    (g.run changes).environment.callDepth ≤ limit := by
  induction changes generalizing g with
  | nil => exact h
  | cons c changes ih =>
      refine ih (callDepth_apply_le h fun other hc => ?_) fun other hmem => ?_
      · exact hchanges other (hc ▸ List.mem_cons_self)
      · exact hchanges other (List.mem_cons_of_mem _ hmem)

end Guarded

/-- The same bounds with another limit on nested calls. -/
def Context.withLimit (ctx : Context) (limit : Option Nat) : Context :=
  { ctx with maxCallDepth := limit }

/-- The limit on nested calls only ever turns a run into a failure of its own. On every
machine, a program that does not end in that failure ends alike under every wider limit.
Where no more calls are nested than the limit allows there never are while the program runs,
and the failure tells of one call more. An allowance only tells how far a run is looked at:
a run that ends ends with every larger one. -/
theorem Program.limit_only_refuses (p : Program) (ctx : Context) (m : Machine) :
    (∀ limit other, NoWider limit other → ∀ allowance r after,
      p.evalUnder .prompt (ctx.withLimit limit) allowance m = some (r, after) →
      (∀ depth max, r ≠ .error (.stackOverflow depth max)) →
      ∀ more, allowance ≤ more →
        p.evalUnder .prompt (ctx.withLimit other) more m = some (r, after)) ∧
    ∀ limit, m.environment.callDepth ≤ limit → ∀ allowance suspended,
      let limited := ctx.withLimit (some limit)
      let start : Guarded := ⟨m.environment, suspended⟩
      let changes := (Task.program p).trace limited allowance m
      (∀ made, made <+: changes → (start.run made).environment.callDepth ≤ limit) ∧
      ∀ r after, p.evalUnder .prompt limited allowance m = some (r, after) →
        start.run changes = ⟨after.environment, suspended⟩ ∧
        ∀ depth max, r = .error (.stackOverflow depth max) → depth = limit + 1 ∧ max = limit := by
  refine ⟨fun limit other h allowance r after hrun hnot more hmore => ?_,
    fun limit hdepth allowance suspended => ⟨fun made hmade => ?_, fun r after hrun => ?_⟩⟩
  · have hkept : ∀ e, r = .error e → ¬ e.isOverflow = true := by
      rintro e rfl hover
      cases e with
      | stackOverflow depth max => exact hnot depth max rfl
      | _ => cases hover
    have henter : Eval.Follows (fun e => e.isOverflow = true)
        (Eval.enterCall (ctx.withLimit limit).maxCallDepth)
        (Eval.enterCall (ctx.withLimit other).maxCallDepth) := Eval.follows_enterCall h
    exact Task.follows (fun _ => nofun) henter hmore (.program p) m r after hrun hkept
  · refine Guarded.callDepth_run_le hdepth fun other hmem => ?_
    exact Task.eq_of_enterCall_mem_trace (hmade.subset hmem)
  · have hended : (Task.program p).evalUnder (ctx.withLimit (some limit)) allowance m =
        some (r, after) := hrun
    refine ⟨(Task.conduct hended).retraced suspended, fun depth max heq => ?_⟩
    -- The allowance may not cover the calls still allowed, but a larger one changes nothing.
    have hmore := Task.evalUnder_of_le (Nat.le_add_right allowance limit) hended
    have hcovers : limit - m.environment.callDepth ≤ allowance + limit := by omega
    have hlimited : (ctx.withLimit (some limit)).maxCallDepth = some limit := rfl
    obtain ⟨r', after', hr', -, -, hover⟩ :=
      Task.settles hlimited hcovers hcovers (.program p) m rfl
    cases hr'.symm.trans hmore
    have hsame := hover _ heq rfl
    rw [Nat.max_eq_right hdepth] at hsame
    cases hsame
    exact ⟨rfl, rfl⟩

/-- A function is called under a limit of one call, which is as good as none; and a function
that calls itself is refused the second. -/
theorem Program.limit_only_refuses_selfCall :
    let name : Token := ⟨.ident, "f"⟩
    let word : Token := ⟨.functionWord, "fn"⟩
    let call := Stmt.expr name (.call ⟨.lparen, "("⟩ (.name name) [])
    let calling (ss : List Stmt) : Program :=
      ⟨[.bind ⟨.letWord, "let"⟩ name (.function word [] ⟨⟨.lbrace, "\x7b"⟩, ss⟩), call]⟩
    let one := Context.withLimit {} (some 1)
    (∃ after, ∀ more, 2 ≤ more →
      (calling []).evalUnder .prompt {} more .initial = some (.ok .null, after)) ∧
    ∃ depth max after,
      (calling [call]).evalUnder .prompt one 2 .initial =
        some (.error (.stackOverflow depth max), after) ∧ depth = 2 ∧ max = 1 ∧
      ∀ made, made <+: (Task.program (calling [call])).trace one 2 .initial →
        (Guarded.initial.run made).environment.callDepth ≤ 1 := by
  intro name word call calling one
  have hcalled : (calling []).evalUnder .prompt one 2 .initial = some _ := rfl
  have hrefused : (calling [call]).evalUnder .prompt one 2 .initial = some _ := rfl
  obtain ⟨hwider, -⟩ := limit_only_refuses (calling []) {} .initial
  obtain ⟨-, hlimited⟩ := limit_only_refuses (calling [call]) {} .initial
  obtain ⟨hnested, hended⟩ := hlimited 1 (Nat.zero_le 1) 2 []
  obtain ⟨hdepth, hmax⟩ := (hended _ _ hrefused).2 _ _ rfl
  exact ⟨⟨_, hwider (some 1) none trivial 2 _ _ hcalled nofun⟩, _, _, _, hrefused, hdepth,
    hmax, hnested⟩

end Treewalk
