/-
  The announced backlog (src/app/app.c, src/imu/imu_log.c).

  "Loss, when it occurs, is counted (`log write backlog` on 0xFFEC)."

  Once a second `app_run` compares `log_dropped` with the value it saw the second before, and
  announces the difference if it is positive.  `imu_log_start` clears `log_dropped` in between.

  1. **Program** — a `Monitor` is a log, what the health monitor remembers of it and what it has
     announced; beside them it counts every record the staging ring has refused, over all sessions.
  2. **The account** — `Monitor.heard`, the figures announced so far and the one the next iteration
     would add.  A step never moves it further than it moves the refusals (`turn_account`), and as
     far exactly if it `Hears` them: a start must not clear what is not announced yet, and when
     records are refused the counter must not be behind the monitor, nor wrap.
  3. **The result** — `backlog_adds_up`: what is announced is never more than what was refused, and
     as much exactly if every step of the run was heard; `backlog_unannounced` is a run in which
     three records of the second session are never announced.
-/
import Caterpillar.ImuLog.Staging
import Caterpillar.ImuLog.WriteErrors
import Mathlib.Algebra.GroupWithZero.Nat

namespace Caterpillar.ImuLog

open Caterpillar.Word Caterpillar.Runs Caterpillar.Imu

/-! ## The health monitor -/

/-- The log and the health monitor of `app_run`. -/
structure Monitor where
  log : Log
  lastWdrop : Nat
  /-- "log write backlog: %u samples lost (total %u)", in order. -/
  announced : List (Nat × Nat)
  /-- Records refused so far, over all sessions. -/
  refused : Nat

/-- A call of the log's interface, or an iteration of the loop in `app_run`. -/
inductive Tick where
  | call (o : Op)
  | iteration

/-- What the loop body does about the backlog. -/
def Monitor.iteration (m : Monitor) : Monitor :=
  let wdrop := imuLogWriteDropped m.log
  { m with
    announced :=
      if wdrop > m.lastWdrop then m.announced ++ [(u32Sub wdrop m.lastWdrop, wdrop)]
      else m.announced
    lastWdrop := wdrop }

/-- How many records a call refuses. -/
def refusedBy (s : Log) : Op → Nat
  | .append xs => if s.active = true then refusals s xs else 0
  | _ => 0

def Monitor.turn (m : Monitor) : Tick → Monitor
  | .call o => { m with log := exec m.log o, refused := m.refused + refusedBy m.log o }
  | .iteration => m.iteration

/-- The sum of the figures announced so far. -/
def Monitor.told (m : Monitor) : Nat := (m.announced.map Prod.fst).sum

/-- Room in the staging ring. -/
def Log.room (s : Log) : Nat := stageN - s.staged

/-- Nothing this step loses escapes the next iteration. -/
def Hears (m : Monitor) : Tick → Prop
  -- the counter is cleared
  | .call (.start _ _) => m.log.active = false → m.log.logDropped ≤ m.lastWdrop
  -- the counter is counted up
  | .call (.append xs) => m.log.active = true → m.log.room < xs.length →
      m.lastWdrop ≤ m.log.logDropped ∧
        m.log.logDropped + (xs.length - m.log.room) < 4294967296
  | _ => True

/-- The device after a boot: nothing counted, nothing announced. -/
structure Monitor.Start (m : Monitor) : Prop where
  metered : m.log.Metered
  counted : m.log.logDropped = 0
  last : m.lastWdrop = 0
  announced : m.announced = []
  refused : m.refused = 0

/-- Every device that has just booted is one, and idle. -/
theorem boot_start (f : Flash) :
    Monitor.Start ⟨bootLog f, 0, [], 0⟩ ∧ (bootLog f).active = false := by
  obtain ⟨g, t, T, n, hram⟩ := imuLogInit_ram (Log.cold f)
  have hboot : bootLog f = { Log.cold f with flash := g, trace := t, totalAbs := T, seqNext := n } :=
    hram
  rw [hboot]
  have hzero : (0 : Nat) < 4294967296 := by decide
  refine ⟨⟨⟨hzero, hzero, ?_⟩, rfl, rfl, rfl, rfl⟩, rfl⟩
  rw [(pending_nil rfl).1]
  exact Nat.zero_le _

/-! ## The counters of the log -/

/-- As many records are refused as there is no room for. -/
theorem refusals_eq {s : Log} (h : s.Metered) (xs : List ImuSample) :
    refusals s xs = xs.length - s.room := by
  unfold refusals Log.room
  rw [(append_ring xs h).1, List.length_take]
  omega

/-- `log_dropped` stays a word. -/
theorem exec_dropped_lt {s : Log} (hd : s.logDropped < 4294967296) (o : Op) :
    (exec s o).logDropped < 4294967296 := by
  rw [exec_dropped]
  cases o with
  | start st ret =>
    dsimp only
    split
    · exact hd
    · decide
  | append xs =>
    dsimp only
    split
    · rw [appendFold_dropped xs s s.logDropped (u32_of_lt hd).symm]
      exact u32_lt _
    · exact hd
  | drain ret => exact hd
  | stop => exact hd
  | erase => exact hd

/-- A start that succeeds opens an empty ring. -/
theorem start_opens {s : Log} (ha : s.active = false) (st : Stamp) :
    (exec s (.start st 0)).active = true ∧ (exec s (.start st 0)).staged = 0 := by
  have hout := exec_cases s (.start st 0)
  generalize exec s (.start st 0) = s' at hout
  cases hout with
  | idle hidle =>
    rcases hidle with ⟨st', ret', -, hact⟩ | ⟨xs, hop, -⟩ | ⟨ret, hop, -⟩ | ⟨hop, -⟩
    · exact absurd hact (by rw [ha]; decide)
    · cases hop
    · cases hop
    · cases hop
  | failed _ hret => exact absurd hret (by decide)
  | opened _ _ => exact ⟨rfl, (pending_nil rfl).1⟩

/-- A stop closes the session. -/
theorem stop_closes (s : Log) : (exec s .stop).active = false := by
  have hout := exec_cases s .stop
  generalize exec s .stop = s' at hout
  cases hout with
  | idle hidle =>
    rcases hidle with ⟨st, ret, hop, -⟩ | ⟨xs, hop, -⟩ | ⟨ret, hop, -⟩ | ⟨-, hact⟩
    · cases hop
    · cases hop
    · cases hop
    · exact hact
  | closed _ _ => rfl

/-- A session of which nothing is drained refuses what the ring has no room for. -/
theorem session_refuses {s : Log} (h : s.Metered) (ha : s.active = false)
    (xs : List ImuSample) (hn : xs.length < 4294967296) :
    refusedBy (exec s (.start Stamp.zero 0)) (.append xs) = xs.length - 1536 ∧
      (exec (exec s (.start Stamp.zero 0)) (.append xs)).logDropped = xs.length - 1536 := by
  have hna : ¬ s.active = true := by rw [ha]; decide
  have hclear : (exec s (.start Stamp.zero 0)).logDropped = 0 :=
    (exec_dropped s _).trans (if_neg hna)
  obtain ⟨hact, hempty⟩ := start_opens ha Stamp.zero
  have hmet := exec_metered h (.start Stamp.zero 0)
  generalize exec s (.start Stamp.zero 0) = s₁ at hclear hact hempty hmet ⊢
  have hrefused : refusals s₁ xs = xs.length - 1536 := by
    rw [refusals_eq hmet, Log.room, hempty, stageN_eq]
  refine ⟨(if_pos hact).trans hrefused, ?_⟩
  have hcount := (exec_dropped s₁ (.append xs)).trans (if_pos hact)
  rw [hcount, appendFold_dropped xs s₁ 0 hclear, hrefused, Nat.zero_add]
  exact u32_of_lt (by omega)

/-! ## The account -/

/-- What has been announced, and what the next iteration would announce. -/
def Monitor.heard (m : Monitor) : Nat := m.told + (m.log.logDropped - m.lastWdrop)

theorem heard_mk (s : Log) (l : Nat) (a : List (Nat × Nat)) (r : Nat) :
    Monitor.heard ⟨s, l, a, r⟩ = (a.map Prod.fst).sum + (s.logDropped - l) := rfl

theorem turn_call (s : Log) (l : Nat) (a : List (Nat × Nat)) (r : Nat) (o : Op) :
    Monitor.turn ⟨s, l, a, r⟩ (.call o) = ⟨exec s o, l, a, r + refusedBy s o⟩ := rfl

theorem turn_iteration (s : Log) (l : Nat) (a : List (Nat × Nat)) (r : Nat) :
    Monitor.turn ⟨s, l, a, r⟩ .iteration = ⟨s, s.logDropped,
      if s.logDropped > l then a ++ [(u32Sub s.logDropped l, s.logDropped)] else a, r⟩ := rfl

/-- An iteration announces just that, and refuses nothing. -/
theorem iteration_told {m : Monitor} (hd : m.log.logDropped < 4294967296) :
    m.iteration.told = m.heard ∧ m.iteration.heard = m.heard ∧ m.iteration.refused = m.refused := by
  have hread : imuLogWriteDropped m.log = m.log.logDropped := rfl
  have htold : m.iteration.told = m.heard := by
    simp only [Monitor.iteration, Monitor.told, Monitor.heard]
    by_cases hmore : imuLogWriteDropped m.log > m.lastWdrop
    · rw [if_pos hmore]
      rw [hread] at hmore ⊢
      have hfigure : u32Sub m.log.logDropped m.lastWdrop = m.log.logDropped - m.lastWdrop :=
        u32Sub_of_le (Nat.le_of_lt hmore) hd
      rw [List.map_append, List.sum_append, hfigure]
      rfl
    · rw [if_neg hmore]
      rw [hread] at hmore
      omega
  refine ⟨htold, ?_, rfl⟩
  have hseen : m.iteration.heard =
      m.iteration.told + (m.log.logDropped - m.log.logDropped) := rfl
  rw [hseen, htold, Nat.sub_self, Nat.add_zero]

/-- The counter counts `r` refusals up, over a monitor that last saw `l`. -/
theorem counted_up {d l r : Nat} (hd : d < 4294967296) :
    u32 (d + r) - l ≤ d - l + r ∧
      (u32 (d + r) - l = d - l + r ↔ (0 < r → l ≤ d ∧ d + r < 4294967296)) := by
  unfold u32
  omega

section Calls

variable (t l r : Nat)

/-- A call that refuses nothing and does not touch the counter. -/
theorem account_same {d d' : Nat} (h : d' = d) :
    t + (d' - l) + r ≤ t + (d - l) + (r + 0) ∧
      (t + (d' - l) + r = t + (d - l) + (r + 0) ↔ True) := by
  rw [h]
  exact ⟨Nat.le_refl _, fun _ => trivial, fun _ => rfl⟩

/-- A start clears the counter. -/
theorem start_account (s : Log) (st : Stamp) (ret : Int) :
    t + ((exec s (.start st ret)).logDropped - l) + r ≤ t + (s.logDropped - l) + (r + 0) ∧
      (t + ((exec s (.start st ret)).logDropped - l) + r = t + (s.logDropped - l) + (r + 0) ↔
        (s.active = false → s.logDropped ≤ l)) := by
  have hdropped := exec_dropped s (.start st ret)
  cases ha : s.active with
  | true =>
    obtain ⟨hle, hiff⟩ := account_same t l r (hdropped.trans (if_pos ha))
    refine ⟨hle, hiff.trans ⟨fun _ hidle => ?_, fun _ => trivial⟩⟩
    exact absurd hidle (by decide)
  | false =>
    have hna : ¬ s.active = true := by rw [ha]; decide
    have hcleared : (exec s (.start st ret)).logDropped = 0 := hdropped.trans (if_neg hna)
    rw [hcleared]
    constructor
    · omega
    · constructor
      · intro hkept _
        omega
      · intro hclear
        have hle := hclear rfl
        omega

/-- An append counts up what it refuses. -/
theorem append_account {s : Log} (hmet : s.Metered) (hd : s.logDropped < 4294967296)
    (xs : List ImuSample) :
    t + ((exec s (.append xs)).logDropped - l) + r ≤
        t + (s.logDropped - l) + (r + refusedBy s (.append xs)) ∧
      (t + ((exec s (.append xs)).logDropped - l) + r =
          t + (s.logDropped - l) + (r + refusedBy s (.append xs)) ↔
        (s.active = true → s.room < xs.length →
          l ≤ s.logDropped ∧ s.logDropped + (xs.length - s.room) < 4294967296)) := by
  have hdropped := exec_dropped s (.append xs)
  by_cases ha : s.active = true
  · have hcount : refusedBy s (.append xs) = xs.length - s.room :=
      (if_pos ha).trans (refusals_eq hmet xs)
    have hcounted : (exec s (.append xs)).logDropped =
        u32 (s.logDropped + (xs.length - s.room)) := by
      rw [← refusals_eq hmet xs]
      exact (hdropped.trans (if_pos ha)).trans
        (appendFold_dropped xs s s.logDropped (u32_of_lt hd).symm)
    rw [hcount, hcounted]
    obtain ⟨hle, hiff⟩ := counted_up (l := l) (r := xs.length - s.room) hd
    have hroom : 0 < xs.length - s.room ↔ s.room < xs.length := Nat.sub_pos_iff_lt
    rw [hroom] at hiff
    constructor
    · omega
    · constructor
      · intro hkept _
        exact hiff.mp (by omega)
      · intro hheard
        have hall := hiff.mpr (hheard ha)
        omega
  · have hcount : refusedBy s (.append xs) = 0 := if_neg ha
    obtain ⟨hle, hiff⟩ := account_same t l r (hdropped.trans (if_neg ha))
    rw [hcount]
    refine ⟨hle, hiff.trans ⟨fun _ hact => ?_, fun _ => trivial⟩⟩
    exact absurd hact ha

end Calls

/-- **Step lemma.**  A step adds no more to the account than it refuses, and as much exactly if it is
    heard. -/
theorem turn_account {m : Monitor} (hmet : m.log.Metered) (hd : m.log.logDropped < 4294967296)
    (e : Tick) :
    (m.turn e).heard + m.refused ≤ m.heard + (m.turn e).refused ∧
      ((m.turn e).heard + m.refused = m.heard + (m.turn e).refused ↔ Hears m e) := by
  cases e with
  | iteration =>
    obtain ⟨-, hheard, hrefused⟩ := iteration_told hd
    have hturn : m.turn .iteration = m.iteration := rfl
    rw [hturn, hheard, hrefused]
    exact ⟨Nat.le_refl _, fun _ => trivial, fun _ => rfl⟩
  | call o =>
    rcases m with ⟨s, l, a, r⟩
    rw [turn_call, heard_mk, heard_mk]
    dsimp only at hmet hd ⊢
    cases o with
    | start st ret => exact start_account _ l r s st ret
    | append xs => exact append_account _ l r hmet hd xs
    | drain ret => exact account_same _ l r (exec_dropped s (.drain ret))
    | stop => exact account_same _ l r (exec_dropped s .stop)
    | erase => exact account_same _ l r (exec_dropped s .erase)

/-! ## Runs -/

/-- What every step keeps. -/
structure Monitor.Kept (m : Monitor) : Prop where
  metered : m.log.Metered
  word : m.log.logDropped < 4294967296
  heard : m.heard ≤ m.refused

theorem turn_kept {m : Monitor} (h : m.Kept) (e : Tick) : (m.turn e).Kept := by
  have haccount := (turn_account h.metered h.word e).1
  have hheard := h.heard
  refine ⟨?_, ?_, by omega⟩
  · cases e with
    | iteration => exact h.metered
    | call o => exact exec_metered h.metered o
  · cases e with
    | iteration => exact h.word
    | call o => exact exec_dropped_lt h.word o

theorem Monitor.Start.kept {m : Monitor} (h : m.Start) : m.Kept ∧ m.heard = m.refused := by
  have hzero : m.heard = m.refused := by
    unfold Monitor.heard Monitor.told
    rw [h.counted, h.last, h.announced, h.refused]
    rfl
  refine ⟨⟨h.metered, ?_, Nat.le_of_eq hzero⟩, hzero⟩
  rw [h.counted]
  decide

/-- **Run lemma.**  The account is square at the end of a run exactly if every step was heard. -/
theorem run_account {m : Monitor} (h : m.Start) (es : List Tick) :
    (es.foldl Monitor.turn m).heard = (es.foldl Monitor.turn m).refused ↔
      ∀ k e, es[k]? = some e → Hears ((es.take k).foldl Monitor.turn m) e := by
  obtain ⟨hkept, hzero⟩ := h.kept
  refine foldl_ends_iff (I := Monitor.Kept) (P := fun m => m.heard = m.refused)
    (fun _ e h => turn_kept h e) ?_ hkept hzero es
  intro m e h
  obtain ⟨hle, hiff⟩ := turn_account h.metered h.word e
  have hheard := h.heard
  rw [← hiff]
  constructor
  · intro hafter
    constructor
    · omega
    · omega
  · rintro ⟨hbefore, hstep⟩
    omega

/-- **Announced losses add up.**  Whatever happens between a boot and an iteration of the health
    monitor, the figures announced up to it sum up to at most what was refused before it; and to just
    that exactly if no start cleared a count the monitor had not seen, and whenever records were
    refused the counter was not behind the monitor and did not wrap. -/
theorem backlog_adds_up {m : Monitor} (h : m.Start) (es : List Tick) :
    (es.foldl Monitor.turn m).iteration.told ≤ (es.foldl Monitor.turn m).refused ∧
    ((es.foldl Monitor.turn m).iteration.told = (es.foldl Monitor.turn m).refused ↔
      ∀ k e, es[k]? = some e → Hears ((es.take k).foldl Monitor.turn m) e) := by
  have hkept : (es.foldl Monitor.turn m).Kept :=
    foldl_keeps (I := Monitor.Kept) (fun _ e hm => turn_kept hm e) es h.kept.1
  rw [(iteration_told hkept.word).1]
  exact ⟨hkept.heard, run_account h es⟩

/-- Five records refused, five announced. -/
theorem backlog_adds_up_five : ∃ xs : List ImuSample, xs.length = 1541 ∧
    (([.call (.start Stamp.zero 0), .call (.append xs)] : List Tick).foldl Monitor.turn
      ⟨bootLog Flash.blank, 0, [], 0⟩).iteration.told = 5 := by
  obtain ⟨hboot, hidle⟩ := boot_start Flash.blank
  have hmet : (bootLog Flash.blank).Metered := hboot.metered
  have hzero : (bootLog Flash.blank).logDropped = 0 := hboot.counted
  obtain ⟨xs, hxs⟩ : ∃ xs : List ImuSample, xs.length = 1541 :=
    ⟨List.replicate 1541 default, List.length_replicate ..⟩
  have hclear : (exec (bootLog Flash.blank) (.start Stamp.zero 0)).logDropped = 0 :=
    (exec_dropped _ _).trans (if_neg (by rw [hidle]; decide))
  obtain ⟨hfive, -⟩ := session_refuses hmet hidle xs (by rw [hxs]; decide)
  refine ⟨xs, hxs, ?_⟩
  rw [(backlog_adds_up hboot _).2.mpr ?_]
  · show 0 + 0 + refusedBy (exec (bootLog Flash.blank) (.start Stamp.zero 0)) (.append xs) = 5
    rw [hfive, hxs]
  · intro k e he
    rcases k with _ | _ | k
    · obtain rfl := Option.some.inj he
      intro _
      exact Nat.le_of_eq hzero
    · obtain rfl := Option.some.inj he
      intro _ _
      refine ⟨Nat.zero_le _, ?_⟩
      show (exec (bootLog Flash.blank) (.start Stamp.zero 0)).logDropped + (xs.length - _) <
        4294967296
      rw [hclear, hxs]
      omega
    · cases he

/-- **Losses that are never announced**: the first session refuses five records, and they are
    announced; the second refuses three, and as the iteration after it finds the counter below five,
    it is silent. -/
theorem backlog_unannounced :
    ¬ ∀ es : List Tick, (es.foldl Monitor.turn ⟨bootLog Flash.blank, 0, [], 0⟩).iteration.told =
      (es.foldl Monitor.turn ⟨bootLog Flash.blank, 0, [], 0⟩).refused := by
  intro hall
  obtain ⟨hboot, hidle⟩ := boot_start Flash.blank
  have hmet : (bootLog Flash.blank).Metered := hboot.metered
  obtain ⟨xs, hxs⟩ : ∃ xs : List ImuSample, xs.length = 1541 :=
    ⟨List.replicate 1541 default, List.length_replicate ..⟩
  obtain ⟨ys, hys⟩ : ∃ ys : List ImuSample, ys.length = 1539 :=
    ⟨List.replicate 1539 default, List.length_replicate ..⟩
  have hrun := hall [.call (.start Stamp.zero 0), .call (.append xs), .iteration, .call .stop,
    .call (.start Stamp.zero 0), .call (.append ys)]
  obtain ⟨hfirst, hfive⟩ := session_refuses hmet hidle xs (by rw [hxs]; decide)
  have hmet' := exec_metered (exec_metered hmet (.start Stamp.zero 0)) (.append xs)
  obtain ⟨hsecond, hthree⟩ := session_refuses (exec_metered hmet' .stop) (stop_closes _) ys
    (by rw [hys]; decide)
  rw [hxs] at hfirst hfive
  rw [hys] at hsecond hthree
  have hstart : ∀ s, refusedBy s (.start Stamp.zero 0) = 0 := fun _ => rfl
  have hstop : ∀ s, refusedBy s .stop = 0 := fun _ => rfl
  have hlast : ∀ m : Monitor, m.iteration = m.turn .iteration := fun _ => rfl
  have htold : ∀ s l a r, Monitor.told ⟨s, l, a, r⟩ = (a.map Prod.fst).sum := fun _ _ _ _ => rfl
  simp only [hlast, List.foldl_cons, List.foldl_nil, turn_call, turn_iteration, hstart, hstop,
    hfirst, hfive, hsecond, hthree, htold] at hrun
  -- five announced, eight refused
  exact absurd hrun (by decide)

end Caterpillar.ImuLog
