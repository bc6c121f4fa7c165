import Treewalk.Syntax

/-!
Equality of syntax, tokens included, as a test. The main statement is that the
test holds of two programs exactly when they are equal.
-/

namespace Treewalk

mutual

/-- Whether two expressions are the same, token for token. -/
def Expr.same : Expr → Expr → Bool
  | .name t, .name u => t == u
  | .integer t n, .integer u m => t == u && n == m
  | .boolean t b, .boolean u c => t == u && b == c
  | .string t, .string u => t == u
  | .prefixed t o a, .prefixed u p b => t == u && o == p && a.same b
  | .binary t o a b, .binary u p c d => t == u && o == p && a.same c && b.same d
  | .conditional t a b none, .conditional u c d none => t == u && a.same c && b.same d
  | .conditional t a b (some x), .conditional u c d (some y) =>
      t == u && a.same c && b.same d && x.same y
  | .function t ps b, .function u qs c => t == u && ps == qs && b.same c
  | .call t f as, .call u g bs => t == u && f.same g && sameExprs as bs
  | .array t as, .array u bs => t == u && sameExprs as bs
  | .index t a i, .index u b j => t == u && a.same b && i.same j
  | .hash t ps, .hash u qs => t == u && samePairs ps qs
  | _, _ => false
termination_by structural e => e

def Stmt.same : Stmt → Stmt → Bool
  | .bind t n e, .bind u m f => t == u && n == m && e.same f
  | .ret t e, .ret u f => t == u && e.same f
  | .expr t e, .expr u f => t == u && e.same f
  | _, _ => false
termination_by structural s => s

def Block.same : Block → Block → Bool
  | ⟨t, ss⟩, ⟨u, rs⟩ => t == u && sameStmts ss rs
termination_by structural b => b

def sameStmts : List Stmt → List Stmt → Bool
  | [], [] => true
  | s :: ss, r :: rs => s.same r && sameStmts ss rs
  | _, _ => false
termination_by structural ss => ss

def sameExprs : List Expr → List Expr → Bool
  | [], [] => true
  | e :: es, f :: fs => e.same f && sameExprs es fs
  | _, _ => false
termination_by structural es => es

def samePairs : List (Expr × Expr) → List (Expr × Expr) → Bool
  | [], [] => true
  | (k, v) :: es, (l, w) :: fs => k.same l && v.same w && samePairs es fs
  | _, _ => false
termination_by structural es => es

end

mutual

theorem Expr.same_iff (a b : Expr) : a.same b = true ↔ a = b := by
  match a with
  | .name t => cases b <;> simp [Expr.same]
  | .integer t n => cases b <;> simp [Expr.same]
  | .boolean t c => cases b <;> simp [Expr.same]
  | .string t => cases b <;> simp [Expr.same]
  | .prefixed t o a => cases b <;> simp [Expr.same, Expr.same_iff a, and_assoc]
  | .binary t o c d =>
      cases b <;> simp [Expr.same, Expr.same_iff c, Expr.same_iff d, and_assoc]
  | .conditional t c d none =>
      cases b with
      | conditional _ _ _ alt =>
          cases alt <;> simp [Expr.same, Expr.same_iff c, Block.same_iff d, and_assoc]
      | _ => simp [Expr.same]
  | .conditional t c d (some x) =>
      cases b with
      | conditional _ _ _ alt =>
          cases alt <;>
            simp [Expr.same, Expr.same_iff c, Block.same_iff d, Block.same_iff x, and_assoc]
      | _ => simp [Expr.same]
  | .function t ps c => cases b <;> simp [Expr.same, Block.same_iff c, and_assoc]
  | .call t f as =>
      cases b <;> simp [Expr.same, Expr.same_iff f, sameExprs_iff as, and_assoc]
  | .array t as => cases b <;> simp [Expr.same, sameExprs_iff as]
  | .index t c i => cases b <;> simp [Expr.same, Expr.same_iff c, Expr.same_iff i, and_assoc]
  | .hash t ps => cases b <;> simp [Expr.same, samePairs_iff ps]
termination_by structural a

theorem Stmt.same_iff (a b : Stmt) : a.same b = true ↔ a = b := by
  match a with
  | .bind t n e => cases b <;> simp [Stmt.same, Expr.same_iff e, and_assoc]
  | .ret t e => cases b <;> simp [Stmt.same, Expr.same_iff e]
  | .expr t e => cases b <;> simp [Stmt.same, Expr.same_iff e]
termination_by structural a

theorem Block.same_iff (a b : Block) : a.same b = true ↔ a = b := by
  match a, b with
  | ⟨t, ss⟩, ⟨u, rs⟩ => simp [Block.same, sameStmts_iff ss]
termination_by structural a

theorem sameStmts_iff (a b : List Stmt) : sameStmts a b = true ↔ a = b := by
  match a with
  | [] => cases b <;> simp [sameStmts]
  | s :: ss => cases b <;> simp [sameStmts, Stmt.same_iff s, sameStmts_iff ss]
termination_by structural a

theorem sameExprs_iff (a b : List Expr) : sameExprs a b = true ↔ a = b := by
  match a with
  | [] => cases b <;> simp [sameExprs]
  | e :: es => cases b <;> simp [sameExprs, Expr.same_iff e, sameExprs_iff es]
termination_by structural a

theorem samePairs_iff (a b : List (Expr × Expr)) : samePairs a b = true ↔ a = b := by
  match a with
  | [] => cases b <;> simp [samePairs]
  | (k, v) :: es =>
      cases b with
      | nil => simp [samePairs]
      | cons p fs =>
          obtain ⟨l, w⟩ := p
          simp [samePairs, Expr.same_iff k, Expr.same_iff v, samePairs_iff es]
termination_by structural a

end

def Program.same (p q : Program) : Bool :=
  sameStmts p.statements q.statements

theorem Program.same_iff (p q : Program) : p.same q = true ↔ p = q := by
  cases p
  cases q
  simp [Program.same, sameStmts_iff]

instance : DecidableEq Program :=
  fun p q => decidable_of_iff (p.same q = true) (Program.same_iff p q)

end Treewalk
