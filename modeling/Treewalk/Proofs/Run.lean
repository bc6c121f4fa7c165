import Treewalk.Run

/-!
Where a run may end when it yields a result, when it fails and when its steps run out.
-/

namespace Treewalk

/-- A run is out of allowance, or ends with a result, or with an error. -/
theorem Run.ended {σ ε α : Type} (x : Option (Except ε α × σ)) :
    x = none ∨ (∃ a s, x = some (.ok a, s)) ∨ ∃ e s, x = some (.error e, s) := by
  obtain _ | ⟨_ | a, s⟩ := x
  · exact .inl rfl
  · exact .inr (.inr ⟨_, s, rfl⟩)
  · exact .inr (.inl ⟨a, s, rfl⟩)

/-- What holds of an outcome: `done` if there is a result, `failed` if there is an
error, and `short` if there is none of them. -/
def Run.Meets {σ ε α : Type} (short : Prop) (done : α → σ → Prop) (failed : σ → Prop) :
    Option (Except ε α × σ) → Prop
  | none => short
  | some (.ok a, s) => done a s
  | some (.error _, s) => failed s

namespace Run.Meets

variable {σ ε α β : Type} {short short' : Prop} {failed failed' : σ → Prop}
  {done : α → σ → Prop} {done' : β → σ → Prop}

theorem imp {x : Option (Except ε α × σ)} {post : α → σ → Prop}
    (h : Meets short done failed x) (hshort : short → short')
    (hdone : ∀ a s, done a s → post a s) (hfailed : ∀ s, failed s → failed' s) :
    Meets short' post failed' x := by
  obtain rfl | ⟨a, s, rfl⟩ | ⟨e, s, rfl⟩ := ended x
  · exact hshort h
  · exact hdone a s h
  · exact hfailed s h

theorem bind {m : Run σ ε α} {next : α → Run σ ε β} {s : σ}
    (h : Meets short done failed (m s)) (hshort : short → short')
    (hfailed : ∀ t, failed t → failed' t)
    (hnext : ∀ a t, done a t → Meets short' done' failed' (next a t)) :
    Meets short' done' failed' ((m >>= next) s) := by
  rw [bind_apply]
  obtain hm | ⟨a, t, hm⟩ | ⟨e, t, hm⟩ := ended (m s) <;> rw [hm] at h ⊢
  · exact hshort h
  · exact hnext a t h
  · exact hfailed t h

end Run.Meets
end Treewalk
