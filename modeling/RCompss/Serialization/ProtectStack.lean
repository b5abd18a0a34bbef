import RCompss.Serialization.Counted

/-! How high reading a file stacks up R's protection stack. -/
namespace RCompss.Serialization
open RCompss.Library SEXP

namespace Payload

mutual

/-- The vectors of a payload in the order the reader protects them, each with whether it
is a named list. -/
def vectors : Payload → List Bool
  | .nil => []
  | .atom _ => [false]
  | .list names xs => names.isSome :: vectorsList xs
  | .array dims dimnames value => vectors dims ++ vectors dimnames ++ vectors value

def vectorsList : List Payload → List Bool
  | [] => []
  | x :: xs => vectors x ++ vectorsList xs

end

end Payload

/-- Protect one vector after the other, a named list with its names for a while. -/
def useOf (flags : List Bool) : StackUse :=
  (flags.map fun named => .push * if named then .borrow else 1).prod

theorem useOf_append (xs ys : List Bool) : useOf (xs ++ ys) = useOf xs * useOf ys := by
  simp [useOf]

mutual

theorem stackUse_eq (p : Payload) : p.stackUse = useOf p.vectors := by
  cases p with
  | nil => rfl
  | atom d => rfl
  | list names xs =>
    have hcons : useOf (names.isSome :: Payload.vectorsList xs) =
      (.push * if names.isSome then .borrow else 1) * useOf (Payload.vectorsList xs) := rfl
    rw [Payload.stackUse, stackUseList_eq xs, Payload.vectors, hcons]
  | array dims dimnames value =>
    rw [Payload.stackUse, Payload.vectors, useOf_append, useOf_append, stackUse_eq dims,
      stackUse_eq dimnames, stackUse_eq value]
termination_by sizeOf p

theorem stackUseList_eq (xs : List Payload) :
    Payload.stackUseList xs = useOf (Payload.vectorsList xs) := by
  cases xs with
  | nil => rfl
  | cons x xs =>
    rw [Payload.stackUseList, Payload.vectorsList, useOf_append, stackUse_eq x, stackUseList_eq xs]
termination_by sizeOf xs

end

mutual

/-- Levels of nesting, attributes included. -/
def nestingDepth : SEXP → ℕ
  | .nil => 1
  | .atom _ as | .other _ as => nestingDepthAttrib as + 1
  | .vec xs as => max (nestingDepthList xs) (nestingDepthAttrib as) + 1

def nestingDepthList : List SEXP → ℕ
  | [] => 0
  | x :: xs => max (nestingDepth x) (nestingDepthList xs)

def nestingDepthAttrib : List (Symbol × SEXP) → ℕ
  | [] => 0
  | (_, x) :: as => max (nestingDepth x) (nestingDepthAttrib as)

end

/-- However the computation ends on `b` and what follows, it used the stack like this. -/
def Stacks {α : Type} (x : ReadM α) (b : Bytes) (use : StackUse) : Prop :=
  ∀ st t, st.input = b ++ t → (exec x st).2.stack = st.stack.advance use

section
variable {α β : Type} {x : ReadM α} {f : α → ReadM β} {b b' : Bytes} {u u' : StackUse} {c : ℕ}
  {a : α}

/-- Nothing more is protected behind the first part. -/
theorem Stacks.bind (hx : Stacks x b u) (hf : ∀ a st, (exec (f a) st).2.stack = st.stack) :
    Stacks (x >>= f) b u := by
  intro st t hst
  have hfirst := hx st t hst
  rw [exec_bind]
  rcases hrun : exec x st with ⟨e | a, s⟩ <;> rw [hrun] at hfirst
  · exact hfirst
  · exact (hf a s).trans hfirst

end

end RCompss.Serialization
