import Mathlib.Data.List.Basic

/-! Computations that may fail and that leave a trace. A triple bounds the result and the trace of
one computation; agreement compares the results of two. -/
namespace NeuralMesh

structure Traced (E R A : Type) where
  result : Except E A
  trace : List R

namespace Traced

variable {E R A B C D : Type}

instance : Monad (Traced E R) where
  pure a := ⟨.ok a, []⟩
  bind x f :=
    match x.result with
    | .ok a => ⟨(f a).result, x.trace ++ (f a).trace⟩
    | .error e => ⟨.error e, x.trace⟩

def fail (e : E) : Traced E R A := ⟨.error e, []⟩

def ofExcept (result : Except E A) : Traced E R A := ⟨result, []⟩

def tell (r : R) : Traced E R Unit := ⟨.ok (), [r]⟩

/-- The results of one computation for each element. -/
def each (f : A → Traced E R B) : List A → Traced E R (List B)
  | [] => pure []
  | a :: as => do
    let b ← f a
    let bs ← each f as
    pure (b :: bs)

theorem bind_eq (x : Traced E R A) (f : A → Traced E R B) : x >>= f =
    match x.result with
    | .ok a => ⟨(f a).result, x.trace ++ (f a).trace⟩
    | .error e => ⟨.error e, x.trace⟩ := rfl

/-! ### Triples -/

/-- The trace has allowed entries only, a result satisfies the postcondition, and a failure the
condition on failures. -/
structure Meets (allowed : R → Prop) (failure : E → Prop) (post : A → Prop) (x : Traced E R A) :
    Prop where
  result : ∀ a, x.result = .ok a → post a
  error : ∀ e, x.result = .error e → failure e
  trace : ∀ r ∈ x.trace, allowed r

variable {allowed : R → Prop} {failure : E → Prop} {post : A → Prop} {post' : B → Prop}

theorem Meets.pure {a : A} (holds : post a) :
    Meets allowed failure post (pure a : Traced E R A) := by
  refine ⟨?_, by rintro _ ⟨⟩, by rintro _ ⟨⟩⟩
  rintro _ ⟨⟩
  exact holds

theorem Meets.fail {e : E} (fails : failure e) :
    Meets allowed failure post (fail e : Traced E R A) := by
  refine ⟨by rintro _ ⟨⟩, ?_, by rintro _ ⟨⟩⟩
  rintro _ ⟨⟩
  exact fails

theorem Meets.tell {r : R} (permitted : allowed r) :
    Meets allowed failure (fun _ => True) (tell r : Traced E R Unit) := by
  refine ⟨fun _ _ => trivial, by rintro _ ⟨⟩, ?_⟩
  intro other member
  rwa [List.mem_singleton.mp member]

theorem Meets.ofExcept {result : Except E A} (holds : ∀ a, result = .ok a → post a)
    (fails : ∀ e, result = .error e → failure e) :
    Meets allowed failure post (ofExcept result : Traced E R A) :=
  ⟨holds, fails, by rintro _ ⟨⟩⟩

theorem Meets.bind {x : Traced E R A} {f : A → Traced E R B}
    (first : Meets allowed failure post x)
    (rest : ∀ a, post a → Meets allowed failure post' (f a)) :
    Meets allowed failure post' (x >>= f) := by
  rw [bind_eq]
  cases ran : x.result with
  | error e =>
    refine ⟨by rintro _ ⟨⟩, ?_, first.trace⟩
    rintro _ ⟨⟩
    exact first.error e ran
  | ok a =>
    have next := rest a (first.result a ran)
    refine ⟨next.result, next.error, fun r member => ?_⟩
    rcases List.mem_append.mp member with early | late
    · exact first.trace r early
    · exact next.trace r late

theorem Meets.imp {weaker : A → Prop} {x : Traced E R A} (meets : Meets allowed failure post x)
    (implies : ∀ a, post a → weaker a) : Meets allowed failure weaker x :=
  ⟨fun a ran => implies a (meets.result a ran), meets.error, meets.trace⟩

theorem Meets.each {f : A → Traced E R B} {as : List A}
    (one : ∀ a ∈ as, Meets allowed failure post' (f a)) :
    Meets allowed failure (fun bs => ∀ b ∈ bs, post' b) (each f as) := by
  induction as with
  | nil => exact Meets.pure (by simp)
  | cons a as ih =>
    obtain ⟨first, others⟩ := List.forall_mem_cons.mp one
    refine first.bind fun b holds => (ih others).bind fun bs hold => ?_
    exact Meets.pure (List.forall_mem_cons.mpr ⟨holds, hold⟩)

/-! ### Agreement -/

/-- Both fail alike, or both have related results. -/
inductive Agrees (related : A → B → Prop) (x : Traced E R A) (y : Traced E R B) : Prop where
  | ok (a : A) (b : B) (left : x.result = .ok a) (right : y.result = .ok b) (both : related a b)
  | error (e : E) (left : x.result = .error e) (right : y.result = .error e)

variable {related : A → B → Prop} {related' : C → D → Prop}

theorem Agrees.pure {a : A} {b : B} (both : related a b) :
    Agrees related (pure a : Traced E R A) (pure b : Traced E R B) :=
  .ok a b rfl rfl both

theorem Agrees.bind {x : Traced E R A} {y : Traced E R B} {f : A → Traced E R C}
    {g : B → Traced E R D} (first : Agrees related x y)
    (rest : ∀ a b, x.result = .ok a → y.result = .ok b → related a b →
      Agrees related' (f a) (g b)) : Agrees related' (x >>= f) (y >>= g) := by
  rw [bind_eq, bind_eq]
  cases first with
  | error e left right =>
    rw [left, right]
    exact .error e rfl rfl
  | ok a b left right both =>
    rw [left, right]
    cases rest a b left right both with
    | ok c d left right both => exact .ok c d left right both
    | error e left right => exact .error e left right

theorem Agrees.refl {related : A → A → Prop} (reflexive : ∀ a, related a a) (x : Traced E R A) :
    Agrees related x x := by
  cases ran : x.result with
  | ok a => exact .ok a a ran ran (reflexive a)
  | error e => exact .error e ran ran

theorem Agrees.imp {weaker : A → B → Prop} {x : Traced E R A} {y : Traced E R B}
    (agrees : Agrees related x y) (implies : ∀ a b, related a b → weaker a b) :
    Agrees weaker x y := by
  cases agrees with
  | ok a b left right both => exact .ok a b left right (implies a b both)
  | error e left right => exact .error e left right

end Traced

end NeuralMesh
