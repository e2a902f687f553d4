/-
  Long reads: one value fetched piece by piece from a server that goes on working.

  A reader asks for the bytes from where it stands; the server answers each request from the value it
  has at that moment and keeps nothing between two requests.

  1. **One request.**  `attrRead`: the offset applied to the value, and what cannot be answered.
  2. **The reader** (`Reading`, `Server.readStep`): what it has put together, and the states the
     server was in meanwhile.  Steps of the server come in between at will.
  3. **Rules.**  `Reads.prefix`: what is put together is a prefix of every list that the values at the
     requests are prefixes of.  `Reads.complete`: it is as long as the last of these values once the
     reader has come to the end.  `Reads.consistent` puts the two together.  `Reads.consistent_first`:
     the values differ only in what the first piece covers.  `Reads.ordered`: a preorder the server
     climbs orders the moments.  `Reads.sublist`: where the values are ends of a growing history, no
     byte is put together twice or out of order, whatever is missing.
-/
import Caterpillar.Lib.Runs
import Mathlib.Data.List.Infix

namespace Caterpillar.LongRead

open Caterpillar.Runs

variable {σ α β : Type}

/-! ## One request -/

/-- The answer to a request; `none` where the offset lies outside the value. -/
def attrRead (value : List β) (offset len : Nat) : Option (List β) :=
  if offset > value.length then none else some ((value.drop offset).take len)

theorem attrRead_some {value piece : List β} {offset len : Nat}
    (h : attrRead value offset len = some piece) :
    offset ≤ value.length ∧ piece = (value.drop offset).take len := by
  obtain ⟨hin, hpiece⟩ := Option.ite_none_left_eq_some.mp h
  exact ⟨Nat.le_of_not_lt hin, (Option.some.inj hpiece).symm⟩

/-- A piece of a value goes on where a prefix of it ends. -/
theorem attrRead_prefix {value v front piece : List β} {len : Nat} (hv : value <+: v)
    (hfront : front <+: v) (h : attrRead value front.length len = some piece) :
    front ++ piece <+: v := by
  obtain ⟨hin, rfl⟩ := attrRead_some h
  have hback : (value.drop front.length).take len <+: v.drop front.length := by
    obtain ⟨rest, rfl⟩ := hv
    rw [List.drop_append_of_le_length hin]
    exact (List.take_prefix _ _).trans (List.prefix_append _ _)
  obtain ⟨rest, rfl⟩ := hfront
  rw [List.drop_left] at hback
  exact (List.prefix_append_right_inj front).mpr hback

/-- A piece of the end of a history stands behind what was put together from an earlier part of it. -/
theorem attrRead_sublist {hist front piece : List β} {k n len : Nat}
    (h : attrRead (hist.drop n) front.length len = some piece) (hle : k ≤ n)
    (hfront : front.Sublist (hist.take (k + front.length))) :
    (front ++ piece).Sublist (hist.take (n + (front ++ piece).length)) := by
  obtain ⟨-, hpiece⟩ := attrRead_some h
  have hearlier : front.Sublist (hist.take (n + front.length)) :=
    hfront.trans (List.take_sublist_take_left (by omega))
  have hpre : piece <+: hist.drop (n + front.length) := by
    rw [hpiece, List.drop_drop]
    exact List.take_prefix _ _
  rw [List.length_append, ← Nat.add_assoc, List.take_add, ← List.prefix_iff_eq_take.mp hpre]
  exact hearlier.append (List.Sublist.refl piece)

/-- A piece shorter than asked for is the last one. -/
theorem attrRead_short {value front piece : List β} {len : Nat}
    (h : attrRead value front.length len = some piece) (hshort : piece.length < len) :
    (front ++ piece).length = value.length := by
  obtain ⟨hin, rfl⟩ := attrRead_some h
  rw [List.length_take, List.length_drop] at hshort
  rw [List.length_append, List.length_take, List.length_drop]
  omega

/-- Two values of one length that differ in their first `k` bytes at most. -/
def SameFrom (k : Nat) (value value' : List β) : Prop :=
  value.length = value'.length ∧ value.drop k = value'.drop k

/-- Behind these bytes they answer alike. -/
theorem SameFrom.attrRead_eq {value value' : List β} {k offset len : Nat}
    (h : SameFrom k value value') (hpast : min k value'.length ≤ offset) :
    attrRead value offset len = attrRead value' offset len := by
  obtain ⟨hlen, hback⟩ := h
  have hsame : value.drop offset = value'.drop offset := by
    by_cases hk : k ≤ offset
    · rw [← Nat.add_sub_cancel' hk, ← List.drop_drop, ← List.drop_drop, hback]
    · rw [List.drop_eq_nil_of_le (by omega), List.drop_eq_nil_of_le (by omega)]
  unfold attrRead
  rw [hlen, hsame]

/-! ## The reader -/

/-- How a read stands: more to ask for, all there, or refused. -/
inductive Progress where
  | going
  | complete
  | failed
  deriving DecidableEq

/-- A reader at work, and the server. -/
structure Reading (σ β : Type) where
  server : σ
  assembled : List β
  progress : Progress
  /-- The states of the server at the requests answered. -/
  moments : List σ
  /-- All its states from the first request on, as long as the read goes on. -/
  during : List σ

/-- Before the first request. -/
def Reading.begin (s : σ) : Reading σ β := ⟨s, [], .going, [], []⟩

/-- The server moves on. -/
def Reading.moved (r : Reading σ β) (s : σ) : Reading σ β :=
  { r with
    server := s
    during := if r.moments ≠ [] ∧ r.progress = .going then r.during ++ [s] else r.during }

/-- A request for `len` bytes has been answered. -/
def Reading.answered (r : Reading σ β) (len : Nat) : Option (List β) → Reading σ β
  | none => { r with progress := .failed }
  | some piece =>
      { r with
        assembled := r.assembled ++ piece
        progress := if piece.length < len then .complete else .going
        moments := r.moments ++ [r.server]
        during := if r.moments = [] then [r.server] else r.during }

/-- A server: its states and steps, when it answers, and with what value. -/
structure Server (σ α β : Type) where
  init : σ → Prop
  step : σ → α → Option σ
  ready : σ → Bool
  value : σ → List β

/-- What can happen during a read. -/
inductive Act (α : Type) where
  | serve (a : α)
  | request (len : Nat)

namespace Server

/-- One step of the reader or the server; `none` where it cannot happen. -/
def readStep (srv : Server σ α β) (r : Reading σ β) : Act α → Option (Reading σ β)
  | .serve a => (srv.step r.server a).map r.moved
  | .request len =>
      if r.progress = .going ∧ srv.ready r.server = true then
        some (r.answered len (attrRead (srv.value r.server) r.assembled.length len))
      else none

/-- The states the server comes to. -/
def Reached (srv : Server σ α β) : σ → Prop :=
  Reach srv.init fun s a s' => srv.step s a = some s'

/-- A read begins in any of them. -/
def Begins (srv : Server σ α β) (r : Reading σ β) : Prop :=
  ∃ s, srv.Reached s ∧ r = Reading.begin s

/-- The reads under way, over all orders of steps. -/
def Reads (srv : Server σ α β) : Reading σ β → Prop :=
  Reach srv.Begins fun r e r' => srv.readStep r e = some r'

/-! ## Rules -/

variable {srv : Server σ α β}

theorem readStep_serve {r r' : Reading σ β} {a : α} (h : srv.readStep r (.serve a) = some r') :
    ∃ s, srv.step r.server a = some s ∧ r' = r.moved s := by
  obtain ⟨s, hs, hr⟩ := Option.map_eq_some_iff.mp h
  exact ⟨s, hs, hr.symm⟩

theorem readStep_request {r r' : Reading σ β} {len : Nat}
    (h : srv.readStep r (.request len) = some r') :
    r' = { r with progress := .failed } ∨
      ∃ piece, attrRead (srv.value r.server) r.assembled.length len = some piece ∧
        r.progress = .going ∧ r' = r.answered len (some piece) := by
  obtain ⟨⟨hgoing, -⟩, hr⟩ := Option.ite_none_right_eq_some.mp h
  obtain rfl := Option.some.inj hr
  cases hpiece : attrRead (srv.value r.server) r.assembled.length len with
  | none => exact Or.inl rfl
  | some piece => exact Or.inr ⟨piece, rfl, hgoing, rfl⟩

/-- What a step of a read can be. -/
theorem readStep_cases {r r' : Reading σ β} {e : Act α} (h : srv.readStep r e = some r') :
    (∃ a s, srv.step r.server a = some s ∧ r' = r.moved s) ∨
      r' = { r with progress := .failed } ∨
      ∃ len piece, attrRead (srv.value r.server) r.assembled.length len = some piece ∧
        r.progress = .going ∧ r' = r.answered len (some piece) := by
  cases e with
  | serve a => exact Or.inl ⟨a, readStep_serve h⟩
  | request len =>
    rcases readStep_request h with hfailed | hanswered
    · exact Or.inr (Or.inl hfailed)
    · exact Or.inr (Or.inr ⟨len, hanswered⟩)

/-- **Prefix rule.** -/
theorem Reads.prefix {r : Reading σ β} (h : srv.Reads r) :
    ∀ v, (∀ s ∈ r.moments, srv.value s <+: v) → r.assembled <+: v := by
  refine h.invariant (I := fun r => ∀ v, (∀ s ∈ r.moments, srv.value s <+: v) → r.assembled <+: v)
    ?_ ?_
  · rintro r ⟨s, -, rfl⟩ v -
    exact List.nil_prefix
  · intro r e r' _ ih hst v hv
    rcases readStep_cases hst with ⟨a, s, -, rfl⟩ | rfl | ⟨len, piece, hpiece, -, rfl⟩
    · exact ih v hv
    · exact ih v hv
    · have hold : r.assembled <+: v := ih v fun s hs => hv s (List.mem_append_left _ hs)
      have hnow : srv.value r.server <+: v := hv r.server (by simp [Reading.answered])
      exact attrRead_prefix hnow hold hpiece

/-- **Completeness.** -/
theorem Reads.complete {r : Reading σ β} (h : srv.Reads r) :
    r.progress = .complete →
      ∃ s, r.moments.getLast? = some s ∧ r.assembled.length = (srv.value s).length := by
  refine h.invariant (I := fun r => r.progress = .complete →
    ∃ s, r.moments.getLast? = some s ∧ r.assembled.length = (srv.value s).length) ?_ ?_
  · rintro r ⟨s, -, rfl⟩ hc
    cases hc
  · intro r e r' _ ih hst hc
    rcases readStep_cases hst with ⟨a, s, -, rfl⟩ | rfl | ⟨len, piece, hpiece, -, rfl⟩
    · exact ih hc
    · cases hc
    · refine ⟨r.server, List.getLast?_concat, attrRead_short hpiece ?_⟩
      by_contra hlong
      have hgoing : (r.answered len (some piece)).progress = .going := if_neg hlong
      rw [hgoing] at hc
      cases hc

/-- The server is only ever in states that it comes to on its own. -/
theorem Reads.reached {r : Reading σ β} (h : srv.Reads r) :
    srv.Reached r.server ∧ ∀ s ∈ r.moments, srv.Reached s := by
  refine h.invariant (I := fun r => srv.Reached r.server ∧ ∀ s ∈ r.moments, srv.Reached s) ?_ ?_
  · rintro r ⟨s, hs, rfl⟩
    exact ⟨hs, fun s' hs' => absurd hs' List.not_mem_nil⟩
  · rintro r e r' _ ⟨hserver, hmoments⟩ hst
    rcases readStep_cases hst with ⟨a, s, hs, rfl⟩ | rfl | ⟨len, piece, -, -, rfl⟩
    · exact ⟨hserver.next hs, hmoments⟩
    · exact ⟨hserver, hmoments⟩
    · refine ⟨hserver, fun s hs => ?_⟩
      rcases List.mem_append.mp hs with hold | hnew
      · exact hmoments s hold
      · rw [List.mem_singleton.mp hnew]
        exact hserver

/-- The requests fall into the time of the read. -/
theorem Reads.moments_during {r : Reading σ β} (h : srv.Reads r) :
    ∀ s ∈ r.moments, s ∈ r.during := by
  refine (h.invariant (I := fun r => (∀ s ∈ r.moments, s ∈ r.during) ∧
    (r.moments ≠ [] → r.progress = .going → r.server ∈ r.during)) ?_ ?_).1
  · rintro r ⟨s, -, rfl⟩
    exact ⟨fun s' hs' => absurd hs' List.not_mem_nil, fun hne => absurd rfl hne⟩
  · rintro r e r' _ ⟨hmoments, hnow⟩ hst
    rcases readStep_cases hst with ⟨a, s, -, rfl⟩ | rfl | ⟨len, piece, -, hgoing, rfl⟩
    · constructor
      · intro s' hs'
        show s' ∈ if _ then r.during ++ [s] else r.during
        split
        · exact List.mem_append_left _ (hmoments s' hs')
        · exact hmoments s' hs'
      · intro hne hgoing
        show s ∈ if _ then r.during ++ [s] else r.during
        rw [if_pos ⟨hne, hgoing⟩]
        exact List.mem_append_right _ (List.mem_singleton.mpr rfl)
    · exact ⟨hmoments, fun _ hc => by cases hc⟩
    · have hserver : r.server ∈ if r.moments = [] then [r.server] else r.during := by
        split
        · exact List.mem_singleton.mpr rfl
        · rename_i hne
          exact hnow hne hgoing
      refine ⟨fun s hs => ?_, fun _ _ => hserver⟩
      rcases List.mem_append.mp hs with hold | hnew
      · show s ∈ if r.moments = [] then [r.server] else r.during
        rw [if_neg (List.ne_nil_of_mem hold)]
        exact hmoments s hold
      · rw [List.mem_singleton.mp hnew]
        exact hserver

/-- The bytes put together are those of the value at the moment `s` of the read, as far as the reader
    has come. -/
structure Consistent (srv : Server σ α β) (r : Reading σ β) (s : σ) : Prop where
  during : s ∈ r.during
  soFar : r.assembled <+: srv.value s
  whole : r.progress = .complete → r.assembled = srv.value s

/-- **Consistent reads**: the values at the requests agree with the last one as far as they go. -/
theorem Reads.consistent {r : Reading σ β} (h : srv.Reads r) {last : σ}
    (hlast : r.moments.getLast? = some last) (hv : ∀ s ∈ r.moments, srv.value s <+: srv.value last) :
    srv.Consistent r last := by
  have hpre := Reads.prefix h _ hv
  refine ⟨Reads.moments_during h last (List.mem_of_getLast? hlast), hpre, fun hc => ?_⟩
  obtain ⟨s, hs, hlen⟩ := Reads.complete h hc
  obtain rfl : last = s := Option.some.inj (hlast.symm.trans hs)
  exact hpre.eq_of_length hlen

/-- The first request is for `k` bytes or more. -/
def AsksFirst (k : Nat) (r : Reading σ β) : Act α → Prop
  | .serve _ => True
  | .request len => r.moments = [] → k ≤ len

/-- What is put together then comes from the first value, and reaches behind what the values differ
    in. -/
theorem Reads.covers_first {k : Nat} {r : Reading σ β}
    (h : Reach srv.Begins
      (guarded (AsksFirst k) fun r e r' => srv.readStep r e = some r') r) :
    (r.moments = [] → r.assembled = []) ∧ ∀ first, r.moments.head? = some first →
      (∀ s ∈ r.moments, SameFrom k (srv.value s) (srv.value first)) →
      r.assembled <+: srv.value first ∧ min k (srv.value first).length ≤ r.assembled.length := by
  refine h.invariant (I := fun r => (r.moments = [] → r.assembled = []) ∧
    ∀ first, r.moments.head? = some first →
      (∀ s ∈ r.moments, SameFrom k (srv.value s) (srv.value first)) →
      r.assembled <+: srv.value first ∧
        min k (srv.value first).length ≤ r.assembled.length) ?_ ?_
  · rintro r ⟨s, -, rfl⟩
    exact ⟨fun _ => rfl, fun first hfirst => by cases hfirst⟩
  rintro r (a | len) r' _ ⟨hnone, ih⟩ ⟨hasks, hst⟩
  · obtain ⟨s, -, rfl⟩ := readStep_serve hst
    exact ⟨hnone, ih⟩
  rcases readStep_request hst with rfl | ⟨piece, hpiece, -, rfl⟩
  · exact ⟨hnone, ih⟩
  refine ⟨fun hnil => absurd hnil (by simp [Reading.answered]), fun first hfirst hv => ?_⟩
  show r.assembled ++ piece <+: srv.value first ∧
    min k (srv.value first).length ≤ (r.assembled ++ piece).length
  cases hmoments : r.moments with
  | nil =>
    -- the first piece covers the first `k` bytes
    have hlen : k ≤ len := hasks hmoments
    obtain rfl : r.server = first := by
      simpa [Reading.answered, hmoments] using hfirst
    rw [hnone hmoments] at hpiece ⊢
    obtain ⟨-, rfl⟩ := attrRead_some hpiece
    constructor
    · exact List.take_prefix _ _
    · simp only [List.nil_append, List.length_nil, List.drop_zero, List.length_take]
      omega
  | cons s ms =>
    -- behind these the later value is the first one
    obtain rfl : s = first := by
      simpa [Reading.answered, hmoments] using hfirst
    obtain ⟨hpre, hpast⟩ := ih s (by rw [hmoments]; rfl) fun s' hs' =>
      hv s' (List.mem_append_left _ hs')
    have hsame := hv r.server (by simp [Reading.answered])
    rw [hsame.attrRead_eq hpast] at hpiece
    constructor
    · exact attrRead_prefix (List.prefix_refl _) hpre hpiece
    · rw [List.length_append]
      omega

/-- **Consistent from the first request on**: the first request covers what the values at the requests
    differ in. -/
theorem Reads.consistent_first {k : Nat} {r : Reading σ β}
    (h : Reach srv.Begins
      (guarded (AsksFirst k) fun r e r' => srv.readStep r e = some r') r)
    {first : σ} (hfirst : r.moments.head? = some first)
    (hv : ∀ s ∈ r.moments, SameFrom k (srv.value s) (srv.value first)) :
    srv.Consistent r first := by
  have hreads : srv.Reads r := h.mono (fun _ hb => hb) fun _ _ _ hst => hst.2
  obtain ⟨hpre, -⟩ := (Reads.covers_first h).2 first hfirst hv
  refine ⟨Reads.moments_during hreads first (List.mem_of_head? hfirst), hpre, fun hc => ?_⟩
  obtain ⟨s, hs, hlen⟩ := Reads.complete hreads hc
  exact hpre.eq_of_length (hlen.trans (hv s (List.mem_of_getLast? hs)).1)

/-- **Order of the moments.** -/
theorem Reads.ordered {R : σ → σ → Prop} (hrefl : ∀ s, R s s)
    (htrans : ∀ s s' s'', R s s' → R s' s'' → R s s'')
    (hstep : ∀ s a s', srv.Reached s → srv.step s a = some s' → R s s') {r : Reading σ β}
    (h : srv.Reads r) :
    ∀ last, r.moments.getLast? = some last → ∀ s ∈ r.moments, R s last := by
  refine (h.invariant (I := fun r => (∀ s ∈ r.moments, R s r.server) ∧
    ∀ last, r.moments.getLast? = some last → ∀ s ∈ r.moments, R s last) ?_ ?_).2
  · rintro r ⟨s, -, rfl⟩
    exact ⟨fun s' hs' => absurd hs' List.not_mem_nil, fun last hlast => by cases hlast⟩
  · rintro r e r' hr ⟨hserver, hmoments⟩ hst
    rcases readStep_cases hst with ⟨a, s, hs, rfl⟩ | rfl | ⟨len, piece, -, -, rfl⟩
    · exact ⟨fun s' hs' => htrans _ _ _ (hserver s' hs') (hstep _ _ _ (Reads.reached hr).1 hs),
        hmoments⟩
    · exact ⟨hserver, hmoments⟩
    · have hall : ∀ s ∈ r.moments ++ [r.server], R s r.server := by
        intro s hs
        rcases List.mem_append.mp hs with hold | hnew
        · exact hserver s hold
        · rw [List.mem_singleton.mp hnew]
          exact hrefl r.server
      refine ⟨hall, fun last hlast => ?_⟩
      obtain rfl : r.server = last := Option.some.inj (List.getLast?_concat.symm.trans hlast)
      exact hall

/-! ## Ends of a growing history -/

section History

variable {hist : σ → List β} {lost : σ → Nat}
  (hvalue : ∀ s, srv.Reached s → srv.value s = (hist s).drop (lost s))
  (hstep : ∀ s a s', srv.Reached s → srv.step s a = some s' →
    hist s <+: hist s' ∧ lost s ≤ lost s')
include hvalue hstep

/-- **Nothing out of order**: what is put together comes from the history up to where the reader
    stands. -/
theorem Reads.sublist {r : Reading σ β} (h : srv.Reads r) : r.assembled.Sublist (hist r.server) := by
  have hinv : ∃ k, k ≤ lost r.server ∧
      r.assembled.Sublist ((hist r.server).take (k + r.assembled.length)) := by
    refine h.invariant (I := fun r => ∃ k, k ≤ lost r.server ∧
      r.assembled.Sublist ((hist r.server).take (k + r.assembled.length))) ?_ ?_
    · rintro r ⟨s, -, rfl⟩
      exact ⟨0, Nat.zero_le _, List.nil_sublist _⟩
    · rintro r e r' hr ⟨k, hle, hk⟩ hst
      rcases readStep_cases hst with ⟨a, s, hs, rfl⟩ | rfl | ⟨len, piece, hpiece, -, rfl⟩
      · obtain ⟨hgrow, hlost⟩ := hstep _ _ _ (Reads.reached hr).1 hs
        exact ⟨k, Nat.le_trans hle hlost, hk.trans (List.IsPrefix.take hgrow _).sublist⟩
      · exact ⟨k, hle, hk⟩
      · -- the piece starts no earlier in the history than the last one ended
        refine ⟨lost r.server, Nat.le_refl _, ?_⟩
        rw [hvalue _ (Reads.reached hr).1] at hpiece
        exact attrRead_sublist hpiece hle hk
  obtain ⟨k, -, hk⟩ := hinv
  exact hk.trans (List.take_sublist _ _)

/-- While nothing is lost, the values at the requests are prefixes of the last one. -/
theorem Reads.same_start {r : Reading σ β} (h : srv.Reads r) {last : σ}
    (hlast : r.moments.getLast? = some last) (hlost : ∀ s ∈ r.moments, lost s = lost last) :
    ∀ s ∈ r.moments, srv.value s <+: srv.value last := by
  intro s hs
  have hreached := (Reads.reached h).2
  have hgrow : hist s <+: hist last :=
    Reads.ordered (R := fun s s' => hist s <+: hist s') (fun s => List.prefix_refl _)
      (fun s s' s'' => List.IsPrefix.trans) (fun s a s' hr hst => (hstep s a s' hr hst).1) h last
      hlast s hs
  rw [hvalue s (hreached s hs), hvalue last (hreached last (List.mem_of_getLast? hlast)),
    hlost s hs]
  exact List.IsPrefix.drop hgrow _

end History

end Server

end Caterpillar.LongRead
