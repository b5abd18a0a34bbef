import RCompss.Library.Exec

/-! Objects that acquire something at the start of their scope and release it at the end: on a
return and on a raise, save for raises that pass every scope by. -/
namespace RCompss.Library

variable {σ ε α β ι ρ : Type}

/-- How raises leave a scope. -/
structure Unwinding (ε : Type) where
  /-- These release nothing. -/
  passes : ε → Bool
  /-- What a raise out of a release becomes. -/
  terminated : ε
  passes_terminated : passes terminated = true

/-- A release at the end of a scope. -/
def Unwinding.leave (u : Unwinding ε) (release : Exec σ ε Unit) : Exec σ ε Unit :=
  tryCatch release fun _ => throw u.terminated

/-- An object around the rest of its scope. -/
def inScope (u : Unwinding ε) (acquire : Exec σ ε ρ) (release : ρ → Exec σ ε Unit)
    (body : ρ → Exec σ ε α) : Exec σ ε α := do
  let r ← acquire
  let a ← tryCatch (body r) fun e => do
    onlyIf (u.passes e = false) (u.leave (release r))
    throw e
  u.leave (release r)
  return a

/-- Objects one after the other, released in the opposite order. -/
def inScopes (u : Unwinding ε) (acquire : ι → Exec σ ε ρ) (release : ρ → Exec σ ε Unit) :
    List ι → (List ρ → Exec σ ε α) → Exec σ ε α
  | [], body => body []
  | i :: is, body => inScope u (acquire i) release fun r =>
      inScopes u acquire release is fun rs => body (r :: rs)

/-- Run from `s` the computation ends in `R`, unless by a raise that passes the scopes by. -/
def Unwinds (u : Unwinding ε) (x : Exec σ ε α) (s : σ) (R : σ → Prop) : Prop :=
  Meets x s (fun _ t => R t) fun e t => u.passes e = false → R t

namespace Unwinds
variable {u : Unwinding ε} {s : σ} {R R' : σ → Prop}

theorem mono {x : Exec σ ε α} (h : Unwinds u x s R) (hR : ∀ t, R t → R' t) :
    Unwinds u x s R' :=
  Meets.mono h (fun _ t ht => hR t ht) fun _ t ht hpasses => hR t (ht hpasses)

/-- Two parts of which the second stays where the first has led. -/
theorem bind {x : Exec σ ε β} {f : β → Exec σ ε α} (hx : Unwinds u x s R)
    (hf : ∀ b t, R t → Unwinds u (f b) t R) : Unwinds u (x >>= f) s R := by
  unfold Unwinds
  rw [meets_bind]
  exact Meets.imp hx hf

theorem forM {f : β → Exec σ ε PUnit} (bs : List β)
    (hf : ∀ b ∈ bs, ∀ t, R t → Unwinds u (f b) t R) (hs : R s) : Unwinds u (bs.forM f) s R := by
  induction bs generalizing s with
  | nil => exact hs
  | cons b bs ih =>
    rw [List.forM_eq_forM, List.forM_cons]
    apply (hf b List.mem_cons_self s hs).bind
    intro _ t ht
    exact ih (fun b' hb' => hf b' (List.mem_cons_of_mem b hb')) ht

/-- A handler that raises on tells no raise it lets through from one it passes. -/
theorem rethrow {x : Exec σ ε α} {f : ε → ε} (hf : ∀ e, u.passes (f e) = u.passes e)
    (hx : Unwinds u x s R) : Unwinds u (tryCatch x fun e => throw (f e)) s R := by
  unfold Unwinds
  rw [meets_tryCatch]
  apply Meets.mono hx (fun _ _ ht => ht)
  intro e t ht
  rw [meets_throw, hf]
  exact ht

/-- What a scope holds is released, if the release ends where the scope should. -/
theorem inScope {acquire : Exec σ ε ρ} {release : ρ → Exec σ ε Unit} {body : ρ → Exec σ ε α}
    (J : ρ → σ → Prop)
    (hacquire : Meets acquire s (fun r t => Unwinds u (body r) t (J r))
      fun e t => u.passes e = false → R t)
    (hrelease : ∀ r t, J r t → Meets (release r) t (fun _ v => R v) fun _ _ => True) :
    Unwinds u (Library.inScope u acquire release body) s R := by
  have hterminated (v : σ) : u.passes u.terminated = false → R v := by
    intro h
    rw [u.passes_terminated] at h
    contradiction
  unfold Unwinds Library.inScope Unwinding.leave
  rw [meets_bind]
  apply Meets.imp hacquire
  intro r t ht
  rw [meets_bind, meets_tryCatch]
  apply Meets.mono ht
  · intro a v hv
    rw [meets_bind, meets_tryCatch]
    exact (hrelease r v hv).mono (fun _ _ hw => hw) fun _ w _ => hterminated w
  · intro e v hv
    rw [meets_bind, meets_onlyIf]
    split
    next hpasses =>
      rw [meets_tryCatch]
      exact (hrelease r v (hv hpasses)).mono (fun _ _ hw _ => hw) fun _ w _ => hterminated w
    next hpasses => exact fun h => absurd h hpasses

end Unwinds

/-- The objects acquired one after the other, each by a step that `New` tells. -/
inductive AcquiredInTurn (New : ι → ρ → σ → σ → Prop) : List ι → List ρ → σ → σ → Prop
  | nil (s : σ) : AcquiredInTurn New [] [] s s
  | cons {i : ι} {r : ρ} {is : List ι} {rs : List ρ} {s t v : σ} (head : New i r s t)
      (tail : AcquiredInTurn New is rs t v) : AcquiredInTurn New (i :: is) (r :: rs) s v

/-- What every object of a kind does: one acquired in a state that allows it adds what `New`
tells, and its release takes that back from whatever `R` says the scopes inside have left. -/
structure ScopeRule (u : Unwinding ε) (acquire : ι → Exec σ ε ρ) (release : ρ → Exec σ ε Unit)
    (Ready : σ → Prop) (New : ι → ρ → σ → σ → Prop) (R : List ι → σ → σ → Prop) : Prop where
  acquires : ∀ i is s, Ready s → Meets (acquire i) s (fun r t => Ready t ∧ New i r s t)
    fun e t => u.passes e = false → R (i :: is) s t
  releases : ∀ i is r s t v, Ready s → New i r s t → R is t v →
    Meets (release r) v (fun _ w => R (i :: is) s w) fun _ _ => True

/-- Around a body that keeps to `R` the objects keep to it. -/
theorem ScopeRule.unwinds {u : Unwinding ε} {acquire : ι → Exec σ ε ρ}
    {release : ρ → Exec σ ε Unit} {Ready : σ → Prop} {New : ι → ρ → σ → σ → Prop}
    {R : List ι → σ → σ → Prop} (h : ScopeRule u acquire release Ready New R) (is : List ι)
    {body : List ρ → Exec σ ε α} {s : σ} (hs : Ready s)
    (hbody : ∀ rs t, AcquiredInTurn New is rs s t → Ready t → Unwinds u (body rs) t (R [] t)) :
    Unwinds u (inScopes u acquire release is body) s (R is s) := by
  induction is generalizing s body with
  | nil => exact hbody [] s (.nil s) hs
  | cons i is ih =>
    unfold inScopes
    apply Unwinds.inScope fun r v => ∃ t, New i r s t ∧ R is t v
    · apply (h.acquires i is s hs).mono _ fun _ _ ht => ht
      intro r t ht
      obtain ⟨hready, hnew⟩ := ht
      have hinner : Unwinds u (inScopes u acquire release is fun rs => body (r :: rs)) t
          (R is t) := by
        apply ih hready
        intro rs v hacquired
        exact hbody (r :: rs) v (.cons hnew hacquired)
      exact hinner.mono fun v hv => ⟨t, hnew, hv⟩
    · intro r v hv
      obtain ⟨t, hnew, hv⟩ := hv
      exact h.releases i is r s t v hs hnew hv

end RCompss.Library
