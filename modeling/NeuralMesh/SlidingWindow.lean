import Mathlib.Order.Basic
import NeuralMesh.Answers

/-! Sliding windows. A limiter keeps the times that it has admitted, and admits another one while
fewer than a number of them still count; what it has forgotten does not count again. -/
namespace NeuralMesh.SlidingWindow

/-- Which times still count at a later time. -/
structure Window (T : Type) [Preorder T] where
  counts : (now t : T) → Bool
  mono : ∀ {now t earlier newer}, counts now t = true → earlier ≤ now → t ≤ newer →
    counts earlier newer = true

variable {T : Type} [Preorder T] {window : Window T}

def Window.active (window : Window T) (kept : List T) (now : T) : List T :=
  kept.filter (window.counts now)

/-- From this time on, what is kept counts like the whole history. -/
def Keeps (window : Window T) (since : T) (kept history : List T) : Prop :=
  ∀ now, since ≤ now → window.active kept now = window.active history now

/-- Each time was admitted when fewer than `max` of the earlier ones counted. -/
inductive Spaced (window : Window T) (max : Nat) : List T → Prop where
  | nil : Spaced window max []
  | snoc {history : List T} {now : T} : Spaced window max history → (∀ t ∈ history, t ≤ now) →
      (window.active history now).length < max → Spaced window max (history ++ [now])

theorem active_active (kept : List T) {now later : T} (order : now ≤ later) :
    window.active (window.active kept now) later = window.active kept later := by
  rw [Window.active, Window.active, List.filter_filter]
  apply List.filter_congr
  intro t _
  cases counted : window.counts later t with
  | false => rfl
  | true => exact window.mono counted order (le_refl t)

namespace Keeps

variable {since now : T} {kept history : List T}

theorem nil : Keeps window since [] [] := fun _ _ => rfl

theorem later (keeps : Keeps window since kept history) (order : since ≤ now) :
    Keeps window now kept history :=
  fun _ after => keeps _ (le_trans order after)

theorem purge (keeps : Keeps window since kept history) (order : since ≤ now) :
    Keeps window now (window.active kept now) history := by
  intro later after
  rw [active_active kept after]
  exact keeps later (le_trans order after)

theorem push (keeps : Keeps window since kept history) (order : since ≤ now) :
    Keeps window now (kept ++ [now]) (history ++ [now]) := by
  intro later after
  rw [Window.active, Window.active, List.filter_append, List.filter_append]
  exact congrArg (· ++ _) (keeps later (le_trans order after))

end Keeps

/-- Times any two of which count for each other are at most as many as the limit. -/
theorem Spaced.countP_le {max : Nat} {history : List T} (spaced : Spaced window max history)
    {inside : T → Bool} (close : ∀ t now, inside t = true → inside now = true → t ≤ now →
      window.counts now t = true) : history.countP inside ≤ max := by
  induction spaced with
  | nil => exact Nat.zero_le _
  | @snoc history now _ before room ih =>
    rw [List.countP_append, List.countP_singleton]
    cases here : inside now with
    | false => exact ih
    | true =>
      have counted : history.countP inside ≤ history.countP (window.counts now) :=
        List.countP_mono_left fun t member held => close t now held here (before t member)
      rw [Window.active, ← List.countP_eq_length_filter] at room
      exact Nat.lt_of_le_of_lt counted room

theorem Spaced.sorted {max : Nat} {history : List T} (spaced : Spaced window max history) :
    history.Pairwise (· ≤ ·) := by
  induction spaced with
  | nil => exact List.Pairwise.nil
  | snoc _ before _ ih =>
    refine List.pairwise_append.mpr ⟨ih, List.pairwise_singleton _ _, fun t member now last => ?_⟩
    rw [List.mem_singleton.mp last]
    exact before t member

/-- Of times in order, those that no longer count come first. -/
theorem dropWhile_eq_active {kept : List T} (sorted : kept.Pairwise (· ≤ ·)) (now : T) :
    kept.dropWhile (fun t => !window.counts now t) = window.active kept now := by
  induction kept with
  | nil => rfl
  | cons t kept ih =>
    obtain ⟨first, sorted⟩ := List.pairwise_cons.mp sorted
    cases counted : window.counts now t with
    | false =>
      rw [List.dropWhile_cons_of_pos (by rw [counted]; rfl), ih sorted, Window.active,
        Window.active, List.filter_cons_of_neg (by rw [counted]; exact Bool.false_ne_true)]
    | true =>
      have all : ∀ u ∈ t :: kept, window.counts now u = true := by
        intro u member
        rcases List.mem_cons.mp member with rfl | later
        · exact counted
        · exact window.mono counted (le_refl now) (first u later)
      rw [List.dropWhile_cons_of_neg (by rw [counted]; exact Bool.false_ne_true), Window.active,
        List.filter_eq_self.mpr all]

/-! ### A limiter in a trace -/

variable {E A : Type} {time : E → T} {admitted : E × A → Bool}

/-- The times of the admitted entries. -/
def times (time : E → T) (admitted : E × A → Bool) (done : List (E × A)) : List T :=
  (done.filter admitted).map fun d => time d.1

omit [Preorder T] in
theorem times_snoc (done : List (E × A)) (d : E × A) :
    times time admitted (done ++ [d]) =
      times time admitted done ++ if admitted d then [time d.1] else [] := by
  rw [times, times, List.filter_append, List.map_append]
  cases here : admitted d with
  | false => rw [List.filter_cons_of_neg (by rw [here]; exact Bool.false_ne_true)]; rfl
  | true => rw [List.filter_cons_of_pos here]; rfl

omit [Preorder T] in
theorem times_refused (done : List (E × A)) {d : E × A} (refused : admitted d = false) :
    times time admitted (done ++ [d]) = times time admitted done := by
  rw [times_snoc, refused]
  exact List.append_nil _

omit [Preorder T] in
theorem times_admitted (done : List (E × A)) {d : E × A} (counted : admitted d = true) :
    times time admitted (done ++ [d]) = times time admitted done ++ [time d.1] := by
  rw [times_snoc, counted]
  rfl

omit [Preorder T] in
theorem countP_times (inside : T → Bool) (done : List (E × A)) :
    (times time admitted done).countP inside =
      done.countP fun d => admitted d && inside (time d.1) := by
  rw [times, List.countP_map, List.countP_filter]
  apply List.countP_congr
  intro d _
  rw [Bool.and_eq_true, Bool.and_eq_true, and_comm]
  rfl

/-- A limiter keeps the times that it has admitted, as long as they count. -/
structure Recorded (window : Window T) (max : Nat) (time : E → T) (admitted : E × A → Bool)
    (done : List (E × A)) (kept : List T) : Prop where
  keeps : ∀ since, (∀ d ∈ done, time d.1 ≤ since) →
    Keeps window since kept (times time admitted done)
  spaced : Spaced window max (times time admitted done)
  held : kept.Sublist (times time admitted done)

namespace Recorded

variable {max : Nat} {done : List (E × A)} {kept : List T} {e : E} {a : A}

theorem nil : Recorded window max time admitted [] [] :=
  ⟨fun _ _ => Keeps.nil, Spaced.nil, List.Sublist.slnil⟩

theorem sorted (recorded : Recorded window max time admitted done kept) :
    kept.Pairwise (· ≤ ·) :=
  recorded.spaced.sorted.sublist recorded.held

theorem active_eq (recorded : Recorded window max time admitted done kept)
    (order : ∀ d ∈ done, time d.1 ≤ time e) :
    window.active kept (time e) = window.active (times time admitted done) (time e) :=
  recorded.keeps (time e) order (time e) (le_refl _)

theorem pass (recorded : Recorded window max time admitted done kept)
    (other : admitted (e, a) = false) :
    Recorded window max time admitted (done ++ [(e, a)]) kept := by
  have same : times time admitted (done ++ [(e, a)]) = times time admitted done :=
    times_refused done other
  refine ⟨fun since order => ?_, ?_, ?_⟩
  · rw [same]
    exact recorded.keeps since fun d member => order d (List.mem_append_left _ member)
  · rw [same]
    exact recorded.spaced
  · rw [same]
    exact recorded.held

theorem purge (recorded : Recorded window max time admitted done kept)
    (order : ∀ d ∈ done, time d.1 ≤ time e) (other : admitted (e, a) = false) :
    Recorded window max time admitted (done ++ [(e, a)]) (window.active kept (time e)) := by
  have passed := recorded.pass other
  refine ⟨fun since later => ?_, passed.spaced, List.filter_sublist.trans passed.held⟩
  have reached : time e ≤ since := later (e, a) (List.mem_append_right _ List.mem_cons_self)
  have same : times time admitted (done ++ [(e, a)]) = times time admitted done :=
    times_refused done other
  rw [same]
  exact ((recorded.keeps (time e) order).purge (le_refl _)).later reached

theorem take (recorded : Recorded window max time admitted done kept)
    (order : ∀ d ∈ done, time d.1 ≤ time e) (counted : admitted (e, a) = true)
    (room : (window.active kept (time e)).length < max) :
    Recorded window max time admitted (done ++ [(e, a)])
      (window.active kept (time e) ++ [time e]) := by
  have same : times time admitted (done ++ [(e, a)]) = times time admitted done ++ [time e] :=
    times_admitted done counted
  have past : ∀ t ∈ times time admitted done, t ≤ time e := by
    intro t member
    obtain ⟨d, held, rfl⟩ := List.mem_map.mp member
    exact order d (List.mem_of_mem_filter held)
  refine ⟨fun since later => ?_, ?_, ?_⟩
  · have reached : time e ≤ since := later (e, a) (List.mem_append_right _ List.mem_cons_self)
    rw [same]
    have purged := (recorded.keeps (time e) order).purge (le_refl _)
    exact (purged.push (le_refl _)).later reached
  · rw [recorded.active_eq order] at room
    rw [same]
    exact recorded.spaced.snoc past room
  · rw [same]
    exact (List.filter_sublist.trans recorded.held).append (List.Sublist.refl _)

/-- Entries whose times count for each other are at most as many as the limit. -/
theorem countP_le (recorded : Recorded window max time admitted done kept) (inside : T → Bool)
    (close : ∀ t now, inside t = true → inside now = true → t ≤ now →
      window.counts now t = true) :
    (done.countP fun d => admitted d && inside (time d.1)) ≤ max := by
  rw [← countP_times]
  exact recorded.spaced.countP_le close

/-- A full window: so many admitted entries count. -/
theorem full (recorded : Recorded window max time admitted done kept)
    (order : ∀ d ∈ done, time d.1 ≤ time e) (full : max ≤ (window.active kept (time e)).length) :
    max ≤ done.countP fun d => admitted d && window.counts (time e) (time d.1) := by
  rw [recorded.active_eq order, Window.active, ← List.countP_eq_length_filter, countP_times]
    at full
  exact full

end Recorded

end NeuralMesh.SlidingWindow
