import Mathlib.Data.Nat.Basic
import NeuralMesh.Gateway.RateLimiter
import NeuralMesh.SlidingWindow

/-! The checks that fixed windows allow in an interval as long as one of them. The last checks of
one window and the first of the next one stand close together. -/
namespace NeuralMesh.Gateway

open Js Transition Answers SlidingWindow

structure LimiterCheck where
  key : JsString
  now : Nat

namespace InMemoryRateLimiter

section Options

variable (windowMs maxRequests : Nat)

def onCheck (limiter : InMemoryRateLimiter) (c : LimiterCheck) :
    RateLimitStatus × InMemoryRateLimiter :=
  limiter.check windowMs maxRequests c.key c.now

def allowedFor (key : JsString) (d : LimiterCheck × RateLimitStatus) : Bool :=
  decide (d.1.key = key) && d.2.allowed

def inInterval (since t : Nat) : Bool := decide (since ≤ t ∧ t < since + windowMs)

/-- No interval as long as the window has more allowed checks of a key than the limit. -/
def Slides (checks : List LimiterCheck) : Prop :=
  ∀ key since, ((trace (onCheck windowMs maxRequests) start checks).countP fun d =>
    allowedFor key d && inInterval windowMs since d.1.now) ≤ maxRequests

/-- A window is opened long after the one before it, or after one with a single request. -/
def Separate (limiter : InMemoryRateLimiter) (c : LimiterCheck) : Prop :=
  ∀ record, limiter.records c.key = some record → record.resetTime ≤ c.now →
    record.count ≤ 1 ∨ record.resetTime + windowMs ≤ c.now + 1

def slidingWindow : Window Nat where
  counts now t := decide (now < t + windowMs)
  mono := by
    intro now t earlier newer counted before after
    have age := of_decide_eq_true counted
    exact decide_eq_true (by omega)

/-- The allowed checks of a key: those of its window, and older ones that count no more when it
opens. -/
def Bucketed (record : Option WindowRecord) (history : List Nat) : Prop :=
  match record with
  | none => history = []
  | some record => ∃ old first rest, history = old ++ first :: rest ∧
      rest.length + 1 = record.count ∧ first + windowMs = record.resetTime ∧
      (∀ t ∈ rest, t < record.resetTime) ∧ ∀ t ∈ old, t + windowMs ≤ first

end Options

variable {windowMs maxRequests : Nat}

/-- Where the record has ended, nothing counts any more. -/
theorem Bucketed.closed {record : Option WindowRecord} {history : List Nat} {now : Nat}
    (bucketed : Bucketed windowMs record history) (ended : ∀ r, record = some r → r.resetTime ≤ now)
    (separate : ∀ r, record = some r → r.count ≤ 1 ∨ r.resetTime + windowMs ≤ now + 1) :
    ∀ t ∈ history, t + windowMs ≤ now := by
  cases record with
  | none =>
    rw [show history = [] from bucketed]
    exact fun t member => nomatch member
  | some record =>
    obtain ⟨old, first, rest, rfl, counted, opened, inside, before⟩ := bucketed
    have past := ended record rfl
    intro t member
    rcases List.mem_append.mp member with early | current
    · have early := before t early
      omega
    rcases List.mem_cons.mp current with rfl | later
    · omega
    rcases separate record rfl with single | apart
    · have none : rest = [] := List.length_eq_zero_iff.mp (by omega)
      rw [none] at later
      cases later
    · have bound := inside t later
      omega

/-- While the record lasts, only its checks count. -/
theorem Bucketed.active_length {record : WindowRecord} {history : List Nat} {now : Nat}
    (bucketed : Bucketed windowMs (some record) history) (order : ∀ t ∈ history, t ≤ now) :
    ((slidingWindow windowMs).active history now).length ≤ record.count := by
  obtain ⟨old, first, rest, rfl, counted, opened, inside, before⟩ := bucketed
  have reached := order first (List.mem_append_right _ List.mem_cons_self)
  have none : (slidingWindow windowMs).active old now = [] := by
    refine List.filter_eq_nil_iff.mpr fun t member counts => ?_
    have age := of_decide_eq_true counts
    have early := before t member
    omega
  rw [Window.active] at none ⊢
  rw [List.filter_append, none, List.nil_append, ← counted]
  exact List.length_filter_le ..

theorem Bucketed.push {record : WindowRecord} {history : List Nat} {now : Nat}
    (bucketed : Bucketed windowMs (some record) history) (live : now < record.resetTime) :
    Bucketed windowMs (some { record with count := record.count + 1 }) (history ++ [now]) := by
  obtain ⟨old, first, rest, rfl, counted, opened, inside, before⟩ := bucketed
  refine ⟨old, first, rest ++ [now], by rw [List.append_assoc, List.cons_append], ?_, opened, ?_,
    before⟩
  · rw [List.length_append, List.length_singleton, counted]
  · intro t member
    rcases List.mem_append.mp member with early | last
    · exact inside t early
    · rw [List.mem_singleton.mp last]
      exact live

theorem Bucketed.open {history : List Nat} {now : Nat} (window : Nat)
    (closed : ∀ t ∈ history, t + windowMs ≤ now) :
    Bucketed windowMs (some ⟨window, 1, now + windowMs⟩) (history ++ [now]) :=
  ⟨history, now, [], rfl, rfl, rfl, List.forall_mem_nil _, closed⟩

variable (windowMs maxRequests) in
/-- The allowed checks of each key are spaced, and belong to its record or to older ones. -/
def Separated (done : List (LimiterCheck × RateLimitStatus)) (limiter : InMemoryRateLimiter) : Prop :=
  ∀ key, Spaced (slidingWindow windowMs) maxRequests
      (times LimiterCheck.now (allowedFor key) done) ∧
    Bucketed windowMs (limiter.records key) (times LimiterCheck.now (allowedFor key) done)

theorem mem_times {done : List (LimiterCheck × RateLimitStatus)} {key : JsString} {now t : Nat}
    (order : ∀ d ∈ done, d.1.now ≤ now) (member : t ∈ times LimiterCheck.now (allowedFor key) done) :
    t ≤ now := by
  obtain ⟨d, held, rfl⟩ := List.mem_map.mp member
  exact order d (List.mem_of_mem_filter held)

theorem allowedFor_own (c : LimiterCheck) {status : RateLimitStatus}
    (allowed : status.allowed = true) : allowedFor c.key (c, status) = true := by
  rw [allowedFor, decide_eq_true rfl, allowed]
  rfl

theorem allowedFor_other (c : LimiterCheck) (status : RateLimitStatus) {key : JsString}
    (other : key ≠ c.key) : allowedFor key (c, status) = false := by
  rw [allowedFor, decide_eq_false (Ne.symm other)]
  rfl

theorem onCheck_separated (positive : 0 < maxRequests)
    (done : List (LimiterCheck × RateLimitStatus)) (limiter : InMemoryRateLimiter) (c : LimiterCheck)
    (good : Separated windowMs maxRequests done limiter) (order : ∀ d ∈ done, d.1.now ≤ c.now)
    (separate : Separate windowMs limiter c) :
    Separated windowMs maxRequests (done ++ [(c, (onCheck windowMs maxRequests limiter c).1)])
      (next (onCheck windowMs maxRequests) limiter c) := by
  have checked : Checked windowMs maxRequests limiter c.key c.now _ := limiter.check_checked ..
  rw [next, onCheck]
  generalize limiter.check windowMs maxRequests c.key c.now = result at checked
  have past : ∀ t ∈ times LimiterCheck.now (allowedFor c.key) done, t ≤ c.now :=
    fun t member => mem_times order member
  intro key
  by_cases own : key = c.key
  · subst own
    obtain ⟨spaced, bucketed⟩ := good c.key
    cases checked with
    | opened closed =>
      have apart := bucketed.closed closed fun record stored =>
        separate record stored (closed record stored)
      have none : (slidingWindow windowMs).active
          (times LimiterCheck.now (allowedFor c.key) done) c.now = [] :=
        List.filter_eq_nil_iff.mpr fun t member counts =>
          absurd (apart t member) (Nat.not_le_of_lt (of_decide_eq_true counts))
      rw [times_admitted done (allowedFor_own c rfl)]
      refine ⟨spaced.snoc past (by rw [none]; exact positive), ?_⟩
      change Bucketed windowMs (Function.update limiter.records c.key _ c.key) _
      rw [Function.update_self]
      exact Bucketed.open _ apart
    | refused record stored live full =>
      rw [times_refused done (Bool.and_false _)]
      exact ⟨spaced, bucketed⟩
    | counted record stored live room =>
      rw [stored] at bucketed
      rw [times_admitted done (allowedFor_own c rfl)]
      refine ⟨spaced.snoc past (Nat.lt_of_le_of_lt (bucketed.active_length past) room), ?_⟩
      change Bucketed windowMs (Function.update limiter.records c.key _ c.key) _
      rw [Function.update_self]
      exact bucketed.push live
  · rw [times_refused done (allowedFor_other c _ own)]
    refine ⟨(good key).1, ?_⟩
    have kept : result.2.records key = limiter.records key := by
      cases checked with
      | opened | counted => exact Function.update_of_ne own ..
      | refused => rfl
    rw [kept]
    exact (good key).2

theorem start_separated : Separated windowMs maxRequests [] start := fun _ => ⟨Spaced.nil, rfl⟩

theorem inInterval_close {since t now : Nat} (first : inInterval windowMs since t = true)
    (last : inInterval windowMs since now = true) : (slidingWindow windowMs).counts now t = true := by
  have lower := (of_decide_eq_true first).1
  have upper := (of_decide_eq_true last).2
  exact decide_eq_true (by omega)

/-- Windows apart from each other are as good as a sliding one. -/
theorem slides_of_separate (positive : 0 < maxRequests) {checks : List LimiterCheck}
    (ordered : Ordered LimiterCheck.now checks)
    (separate : Allowed (next (onCheck windowMs maxRequests)) (Separate windowMs) start checks) :
    Slides windowMs maxRequests checks := by
  have good : Separated windowMs maxRequests
      ([] ++ trace (onCheck windowMs maxRequests) start checks)
      (run (next (onCheck windowMs maxRequests)) start checks) :=
    trace_invariant (fun done s c good order condition =>
      onCheck_separated positive done s c good order condition) start_separated ordered separate
  intro key since
  have close : ∀ t now, inInterval windowMs since t = true → inInterval windowMs since now = true →
      t ≤ now → (slidingWindow windowMs).counts now t = true :=
    fun t now first last _ => inInterval_close first last
  have bound := (good key).1.countP_le close
  rwa [countP_times] at bound

/-! ### Options for which every run slides -/

theorem next_count {limiter : InMemoryRateLimiter}
    (bounded : ∀ key record, limiter.records key = some record → record.count ≤ max 1 maxRequests)
    (c : LimiterCheck) (key : JsString) (record : WindowRecord)
    (stored : (next (onCheck windowMs maxRequests) limiter c).records key = some record) :
    record.count ≤ max 1 maxRequests := by
  have checked : Checked windowMs maxRequests limiter c.key c.now _ := limiter.check_checked ..
  rw [next, onCheck] at stored
  generalize limiter.check windowMs maxRequests c.key c.now = result at checked stored
  have replaced {new : WindowRecord} (low : new.count ≤ max 1 maxRequests)
      (stored : Function.update limiter.records c.key (some new) key = some record) :
      record.count ≤ max 1 maxRequests := by
    rw [Function.update_apply] at stored
    split_ifs at stored
    · cases stored
      exact low
    · exact bounded key record stored
  cases checked with
  | opened closed => exact replaced (le_max_left ..) stored
  | refused => exact bounded key record stored
  | counted before found live room =>
    refine replaced ?_ stored
    exact le_max_of_le_right room

/-- Where a window has a single request or lasts a millisecond, windows are apart. -/
theorem allowed_separate (options : maxRequests ≤ 1 ∨ windowMs ≤ 1) {limiter : InMemoryRateLimiter}
    (bounded : ∀ key record, limiter.records key = some record → record.count ≤ max 1 maxRequests)
    (checks : List LimiterCheck) :
    Allowed (next (onCheck windowMs maxRequests)) (Separate windowMs) limiter checks := by
  induction checks generalizing limiter with
  | nil => trivial
  | cons c checks ih =>
    refine ⟨fun record stored ended => ?_, ih (next_count bounded c)⟩
    have low := bounded c.key record stored
    omega

/-- Options for which a window is never too full. -/
def SlidingOptions (windowMs maxRequests : Nat) : Prop :=
  windowMs = 0 ∨ maxRequests = 1 ∨ windowMs = 1 ∧ 0 < maxRequests

theorem slides_of_options (options : SlidingOptions windowMs maxRequests)
    {checks : List LimiterCheck} (ordered : Ordered LimiterCheck.now checks) :
    Slides windowMs maxRequests checks := by
  have empty : ∀ key record, start.records key = some record → record.count ≤ max 1 maxRequests :=
    fun _ _ stored => nomatch stored
  rcases options with rfl | rfl | ⟨rfl, positive⟩
  · intro key since
    refine Nat.le_trans (Nat.le_of_eq (List.countP_eq_zero.mpr fun d _ counted => ?_)) (Nat.zero_le _)
    have inside := of_decide_eq_true (Bool.and_eq_true_iff.mp counted).2
    omega
  · exact slides_of_separate Nat.one_pos ordered (allowed_separate (.inl (le_refl 1)) empty checks)
  · exact slides_of_separate positive ordered (allowed_separate (.inr (le_refl 1)) empty checks)

/-! ### Options for which some run does not -/

/-- Checks of one key at one time, as long as its window has room. -/
theorem burst {limiter : InMemoryRateLimiter} {c : LimiterCheck} {record : WindowRecord}
    (stored : limiter.records c.key = some record) (live : c.now < record.resetTime) {n : Nat}
    (room : record.count + n ≤ maxRequests) :
    (∀ d ∈ trace (onCheck windowMs maxRequests) limiter (List.replicate n c),
      allowedFor c.key d = true ∧ d.1.now = c.now) ∧
    ∃ after, (run (next (onCheck windowMs maxRequests)) limiter (List.replicate n c)).records c.key =
      some after ∧ after.resetTime = record.resetTime := by
  induction n generalizing limiter record with
  | zero => exact ⟨List.forall_mem_nil _, record, stored, rfl⟩
  | succ n ih =>
    have free : record.count < maxRequests := by omega
    have checked : limiter.check windowMs maxRequests c.key c.now = _ :=
      (Checked.counted record stored live free).eq
    have next_eq : next (onCheck windowMs maxRequests) limiter c =
        limiter.set c.key { record with count := record.count + 1 } := congrArg Prod.snd checked
    have held : (limiter.set c.key { record with count := record.count + 1 }).records c.key =
        some { record with count := record.count + 1 } := Function.update_self ..
    obtain ⟨all, after, kept, same⟩ := ih held live (by dsimp only; omega)
    rw [List.replicate_succ, trace, run, List.foldl_cons, next_eq]
    refine ⟨fun d member => ?_, after, kept, same⟩
    rcases List.mem_cons.mp member with rfl | later
    · have passed : (onCheck windowMs maxRequests limiter c).1.allowed = true :=
        congrArg (fun result => result.1.allowed) checked
      exact ⟨allowedFor_own c passed, rfl⟩
    · exact all d later

/-- A check that finds no open window, and more checks in the window that it opens. -/
theorem opened_burst {limiter : InMemoryRateLimiter} (c : LimiterCheck) (later n : Nat)
    (closed : ∀ record, limiter.records c.key = some record → record.resetTime ≤ c.now)
    (live : later < c.now + windowMs) (room : 1 + n ≤ maxRequests) :
    let opened := next (onCheck windowMs maxRequests) limiter c
    (onCheck windowMs maxRequests limiter c).1.allowed = true ∧
    (∀ d ∈ trace (onCheck windowMs maxRequests) opened (List.replicate n ⟨c.key, later⟩),
      allowedFor c.key d = true ∧ d.1.now = later) ∧
    ∃ after, (run (next (onCheck windowMs maxRequests)) opened
      (List.replicate n ⟨c.key, later⟩)).records c.key = some after ∧
        after.resetTime = c.now + windowMs := by
  have checked : limiter.check windowMs maxRequests c.key c.now = _ := (Checked.opened closed).eq
  have next_eq : next (onCheck windowMs maxRequests) limiter c = _ := congrArg Prod.snd checked
  have held : (next (onCheck windowMs maxRequests) limiter c).records c.key =
      some ⟨limiter.opened, 1, c.now + windowMs⟩ := by
    rw [next_eq]
    exact Function.update_self ..
  exact ⟨congrArg (fun result => result.1.allowed) checked,
    burst (c := ⟨c.key, later⟩) held live room⟩

/-- One check opens a window, the others come at its end, and two more at once after it. -/
def crowd (windowMs maxRequests : Nat) : List LimiterCheck :=
  ⟨[], 0⟩ :: (List.replicate (maxRequests - 1) ⟨[], windowMs - 1⟩ ++
    ⟨[], windowMs⟩ :: List.replicate 1 ⟨[], windowMs⟩)

theorem crowd_ordered : Ordered LimiterCheck.now (crowd windowMs maxRequests) := by
  refine List.pairwise_cons.mpr ⟨fun _ _ => Nat.zero_le _, List.pairwise_append.mpr ⟨?_, ?_, ?_⟩⟩
  · exact List.pairwise_replicate.mpr (.inr (le_refl _))
  · exact List.pairwise_cons.mpr ⟨fun d member =>
      Nat.le_of_eq (congrArg LimiterCheck.now (List.eq_of_mem_replicate member)).symm,
      List.pairwise_singleton _ _⟩
  · intro first early second late
    rw [List.eq_of_mem_replicate early]
    rcases List.mem_cons.mp late with rfl | late
    · exact Nat.sub_le ..
    · rw [List.eq_of_mem_replicate late]
      exact Nat.sub_le ..

/-- The checks at the end of the window and after it are one more than the limit. -/
theorem crowd_slides (many : 2 ≤ maxRequests) (long : 2 ≤ windowMs) :
    ¬ Slides windowMs maxRequests (crowd windowMs maxRequests) := by
  intro slides
  have none : ∀ record, start.records [] = some record → record.resetTime ≤ 0 :=
    fun _ stored => nomatch stored
  obtain ⟨_, atEnd, record, stored, ended⟩ := opened_burst ⟨[], 0⟩ (windowMs - 1) (maxRequests - 1)
    none (show windowMs - 1 < 0 + windowMs by omega)
    (show 1 + (maxRequests - 1) ≤ maxRequests by omega)
  have past : ∀ other, (run (next (onCheck windowMs maxRequests))
      (next (onCheck windowMs maxRequests) start ⟨[], 0⟩)
      (List.replicate (maxRequests - 1) ⟨[], windowMs - 1⟩)).records [] = some other →
      other.resetTime ≤ windowMs := by
    intro other held
    cases stored.symm.trans held
    exact Nat.le_of_eq (ended.trans (Nat.zero_add windowMs))
  obtain ⟨passed, again, _⟩ := opened_burst ⟨[], windowMs⟩ windowMs 1 past
    (show windowMs < windowMs + windowMs by omega) (show 1 + 1 ≤ maxRequests by omega)
  have inside {now : Nat} (first : windowMs - 1 ≤ now) (last : now ≤ windowMs) :
      inInterval windowMs (windowMs - 1) now = true :=
    decide_eq_true (by omega)
  have bound := slides [] (windowMs - 1)
  rw [crowd, trace, trace_append, trace, List.countP_cons, List.countP_append, List.countP_cons,
    List.countP_eq_length.mpr, List.countP_eq_length.mpr, trace_length, trace_length,
    List.length_replicate, List.length_replicate, if_pos] at bound
  · omega
  · rw [allowedFor_own ⟨[], windowMs⟩ passed, inside (Nat.sub_le ..) (le_refl _)]
    rfl
  · intro d member
    rw [(again d member).1, (again d member).2, inside (Nat.sub_le ..) (le_refl _)]
    rfl
  · intro d member
    rw [(atEnd d member).1, (atEnd d member).2, inside (le_refl _) (Nat.sub_le ..)]
    rfl

/-- Every run slides for the options of which each window is apart from the next, and for no other;
and so does every run in which each window is opened apart from the one before it. -/
theorem every_run_slides_iff (windowMs maxRequests : Nat) :
    ((∀ checks, Ordered LimiterCheck.now checks → Slides windowMs maxRequests checks) ↔
      SlidingOptions windowMs maxRequests) ∧
    (0 < maxRequests → ∀ checks, Ordered LimiterCheck.now checks →
      Allowed (next (onCheck windowMs maxRequests)) (Separate windowMs) start checks →
      Slides windowMs maxRequests checks) := by
  refine ⟨⟨fun every => ?_, fun options checks => slides_of_options options⟩,
    fun positive checks => slides_of_separate positive⟩
  by_contra other
  simp only [SlidingOptions, not_or, not_and] at other
  obtain ⟨lasting, several, long⟩ := other
  rcases Nat.eq_zero_or_pos maxRequests with rfl | positive
  · have once := every [⟨[], 0⟩] (List.pairwise_singleton _ _) [] 0
    rw [trace, List.countP_cons, if_pos] at once
    · omega
    · exact decide_eq_true (show 0 ≤ 0 ∧ 0 < 0 + windowMs by omega)
  · refine crowd_slides ?_ ?_ (every (crowd windowMs maxRequests) crowd_ordered)
    · omega
    · by_contra short
      exact long (by omega) positive

/-- Two requests a second: of four checks in a moment at the end of a window, three pass. -/
theorem second_slides_not : ¬ ∀ (windowMs maxRequests : Nat) (checks : List LimiterCheck),
    Ordered LimiterCheck.now checks → Slides windowMs maxRequests checks :=
  fun every => crowd_slides (by decide) (by decide) (every 1000 2 (crowd 1000 2) crowd_ordered)

end InMemoryRateLimiter

end NeuralMesh.Gateway
