import Mathlib.Data.Nat.Find
import Bcm2835.Proofs.SystemTimer.Delay

/-! Waiting for any length of time, in pieces. The pieces are full delays and what is left over
(`waitMicroseconds_eq`), and the looks of a call are those of its pieces in turn (`InTurn`). No call
is too short, whenever the looks are made; and none misses an end if the looks are no more than half
the range apart (`delays_never_short`). -/

namespace Bcm2835.SystemTimer

open Program

/-- The delays, none longer than `longest`, that these ticks are made of. -/
def pieces (longest ticks : Nat) : List UInt32 :=
  List.replicate (ticks / longest) (UInt32.ofNat longest) ++
    if ticks % longest = 0 then [] else [UInt32.ofNat (ticks % longest)]

section
variable {d n : Nat} {x : UInt32}

theorem pieces_zero (d : Nat) : pieces d 0 = [] := by
  rw [pieces, Nat.zero_div, Nat.zero_mod]
  rfl

theorem pieces_of_lt (hpos : 0 < n) (hlt : n < d) : pieces d n = [UInt32.ofNat n] := by
  rw [pieces, Nat.div_eq_of_lt hlt, Nat.mod_eq_of_lt hlt, if_neg (Nat.ne_of_gt hpos)]
  rfl

theorem pieces_of_le (hd : 0 < d) (h : d ≤ n) :
    pieces d n = UInt32.ofNat d :: pieces d (n - d) := by
  rw [pieces, pieces, Nat.div_eq_sub_div hd h, Nat.mod_eq_sub_mod h]
  rfl

theorem mem_pieces (hd : 0 < d) (hsize : d < UInt32.size) (h : x ∈ pieces d n) :
    0 < x.toNat ∧ x.toNat ≤ d := by
  rw [pieces, List.mem_append] at h
  obtain hfull | hrest := h
  · obtain rfl := List.eq_of_mem_replicate hfull
    rw [UInt32.toNat_ofNat_of_lt' hsize]
    exact ⟨hd, Nat.le_refl d⟩
  · split at hrest
    · cases hrest
    · next hne =>
      obtain rfl := List.mem_singleton.1 hrest
      have hlt : n % d < d := Nat.mod_lt n hd
      rw [UInt32.toNat_ofNat_of_lt' (hlt.trans hsize)]
      exact ⟨Nat.pos_of_ne_zero hne, hlt.le⟩

theorem sum_pieces (hd : 0 < d) (hsize : d < UInt32.size) (n : Nat) :
    ((pieces d n).map UInt32.toNat).sum = n := by
  have hrest : ((if n % d = 0 then [] else [UInt32.ofNat (n % d)]).map UInt32.toNat).sum =
      n % d := by
    split
    · next hzero => exact hzero.symm
    · rw [List.map_singleton, List.sum_singleton,
        UInt32.toNat_ofNat_of_lt' ((Nat.mod_lt n hd).trans hsize)]
  rw [pieces, List.map_append, List.sum_append, hrest, List.map_replicate, List.sum_replicate_nat,
    UInt32.toNat_ofNat_of_lt' hsize, Nat.mul_comm, Nat.div_add_mod]

theorem longestDelay_pos : 0 < longestDelay := by decide

theorem forM_cons (x : UInt32) (xs : List UInt32) :
    (x :: xs).forM delay = delay x >>= fun _ => xs.forM delay := rfl

/-- Waiting is one delay after the other. -/
theorem waitMicroseconds_eq (n : Nat) :
    waitMicroseconds n = (pieces longestDelay n).forM delay := by
  induction n using Nat.strong_induction_on with
  | _ n ih =>
    rw [waitMicroseconds]
    split
    · next hzero =>
      rw [hzero, pieces_zero]
      rfl
    · next hpos =>
      rw [ih _ (by have := longestDelay_pos; omega)]
      obtain hlt | hle := Nat.lt_or_ge n longestDelay
      · rw [Nat.min_eq_left hlt.le, Nat.sub_self, pieces_of_lt (Nat.pos_of_ne_zero hpos) hlt,
          pieces_zero, forM_cons]
      · rw [Nat.min_eq_right hle, pieces_of_le longestDelay_pos hle, forM_cons]

end

/-- From look `k` to look `n`, the ends of these delays in turn; each begins with the look behind
the end of the one before. -/
inductive InTurn (ends : Nat → UInt32 → Nat → Prop) : Nat → List UInt32 → Nat → Prop
  | nil {k : Nat} : InTurn ends k [] k
  | cons {k m n : Nat} {x : UInt32} {xs : List UInt32} :
    ends k x m → InTurn ends (m + 1) xs n → InTurn ends k (x :: xs) n

theorem InTurn.le {ends : Nat → UInt32 → Nat → Prop} (hends : ∀ k x m, ends k x m → k ≤ m)
    {k n : Nat} {xs : List UInt32} (h : InTurn ends k xs n) : k ≤ n := by
  induction h with
  | nil => exact Nat.le_refl _
  | cons hfirst _ ih => exact Nat.le_trans (Nat.le_succ_of_le (hends _ _ _ hfirst)) ih

namespace Counter

/-- Whenever the call returns, that much time has passed from its first look to its last, and it has
done nothing but look. -/
def NeverShort (c : Counter) (hw : Behaviour Board) (past : List (Access Board)) (p : Driver Unit)
    (time : Nat) : Prop :=
  ∀ limit, ((p limit).record hw past).outcome = .ok () →
    ∃ m > past.length, c.ticks past.length + time ≤ c.ticks m ∧
      (p limit).record hw past = c.watch past.length (m + 1)

/-- The call does nothing but look, and returns right before access `n`. -/
def EndsBefore (c : Counter) (hw : Behaviour Board) (past : List (Access Board)) (p : Driver Unit)
    (n : Nat) : Prop :=
  ∀ limit, n ≤ past.length + limit → (p limit).record hw past = c.watch past.length n

variable {c : Counter} {hw : Behaviour Board} {k m n limit : Nat} {x : UInt32} {xs : List UInt32}
  {past : List (Access Board)}

theorem Stops.le (h : c.Stops k x m) : k ≤ m := h.1.1.le

theorem Stops.passed (h : c.Stops k x m) : c.ticks k + x.toNat ≤ c.ticks m :=
  passed_of_elapsed h.le h.1.2

theorem watch_self (c : Counter) (k : Nat) : c.watch k k = ⟨[], .ok ()⟩ := by
  rw [watch, lows, Nat.sub_self]
  rfl

theorem behind_watch (hkm : k ≤ m) (hmn : m ≤ n) :
    (c.watch m n).behind ((c.lows k m).map .access) = c.watch k n := by
  rw [watch, watch, Record.behind, ← List.map_append, lows_append hkm hmn]

theorem length_append_lows (h : past.length ≤ m) :
    (past ++ c.lows past.length m).length = m := by
  rw [List.length_append, length_lows, Nat.add_sub_of_le h]

/-- The delays behind the first begin where it ended. -/
theorem record_forM_cons (hlow : c.OnLow hw) (h : c.Stops past.length x m)
    (hlimit : m ≤ past.length + limit) :
    ((x :: xs).forM delay limit).record hw past =
      ((xs.forM delay limit).record hw (past ++ c.lows past.length (m + 1))).behind
        ((c.lows past.length (m + 1)).map .access) := by
  have hfirst := record_delay hlow h hlimit
  rw [forM_cons]
  refine (Tree.record_bind_of_ok hfirst).trans ?_
  rw [Transcript.accesses_map_access]

theorem record_forM (hlow : c.OnLow hw) (h : InTurn c.Stops past.length xs n)
    (hlimit : n ≤ past.length + limit) :
    (xs.forM delay limit).record hw past = c.watch past.length n := by
  induction xs generalizing past with
  | nil =>
    cases h
    exact (watch_self c past.length).symm
  | cons x xs ih =>
    obtain - | ⟨hfirst, hrest⟩ := h
    next m =>
    have hkm := hfirst.le
    have hmn := hrest.le fun _ _ _ => Stops.le
    have hlength : (past ++ c.lows past.length (m + 1)).length = m + 1 :=
      length_append_lows (Nat.le_succ_of_le hkm)
    rw [record_forM_cons hlow hfirst (by omega), ih (hlength.symm ▸ hrest) (by omega), hlength,
      behind_watch (Nat.le_succ_of_le hkm) hmn]

/-- Delays that return have come to their ends in turn. -/
theorem exists_inTurn_of_forM (hlow : c.OnLow hw)
    (h : ((xs.forM delay limit).record hw past).outcome = .ok ()) :
    ∃ n, InTurn c.Stops past.length xs n ∧
      (xs.forM delay limit).record hw past = c.watch past.length n := by
  induction xs generalizing past with
  | nil =>
    exact ⟨past.length, .nil, (watch_self c past.length).symm⟩
  | cons x xs ih =>
    obtain ⟨T, _, hT⟩ := Tree.exists_record_of_bind_ok h
    have hok : ((delay x limit).record hw past).outcome = .ok () := congrArg Record.outcome hT
    obtain ⟨m, hm, hfirst⟩ := exists_stops_of_delay hlow hok
    have hlength : (past ++ c.lows past.length (m + 1)).length = m + 1 :=
      length_append_lows (Nat.le_succ_of_le hfirst.le)
    have hcons : ((x :: xs).forM delay limit).record hw past = _ :=
      record_forM_cons hlow hfirst hm
    rw [hcons] at h
    obtain ⟨n, hrest, hrecord⟩ := ih h
    rw [hlength] at hrest hrecord
    refine ⟨n, .cons hfirst hrest, ?_⟩
    rw [hcons, hrecord, behind_watch (Nat.le_succ_of_le hfirst.le) (hrest.le fun _ _ _ => Stops.le)]

/-- The delays together have taken their time by the last look. -/
theorem passed_of_inTurn (h : InTurn c.Stops k (x :: xs) n) :
    ∃ m, n = m + 1 ∧ k < m ∧ c.ticks k + ((x :: xs).map UInt32.toNat).sum ≤ c.ticks m := by
  induction xs generalizing k x with
  | nil =>
    obtain - | ⟨hfirst, hrest⟩ := h
    next m =>
    cases hrest
    exact ⟨m, rfl, hfirst.1.1, by simpa using hfirst.passed⟩
  | cons y ys ih =>
    obtain - | ⟨hfirst, hrest⟩ := h
    next i =>
    obtain ⟨m, hm, him, hsum⟩ := ih hrest
    have hpassed := hfirst.passed
    have hbehind : c.ticks i ≤ c.ticks (i + 1) := c.mono (Nat.le_succ i)
    have hki := hfirst.1.1
    rw [List.map_cons, List.sum_cons]
    exact ⟨m, hm, by omega, by omega⟩

/-- Looks half the range apart do not miss the end of a piece. -/
theorem inTurn_stops (h : InTurn c.Reaches k xs n) (hxs : ∀ x ∈ xs, x.toNat ≤ longestDelay)
    (hclose : c.Close (2 ^ 31 + 1) k (n - 1)) : InTurn c.Stops k xs n := by
  induction h with
  | nil => exact .nil
  | @cons k m n x xs hfirst hrest ih =>
    have hkm : k < m := hfirst.1.1
    have hmn : m + 1 ≤ n := hrest.le fun _ _ _ h => h.1.1.le
    have hx : x.toNat ≤ 2 ^ 31 - 1 := hxs x List.mem_cons_self
    refine .cons (hfirst.stops ?_) (ih (fun y hy => hxs y (List.mem_cons_of_mem x hy)) ?_)
    · intro i hki him
      have hgap := hclose i hki (by omega)
      omega
    · intro i hmi hin
      exact hclose i (by omega) hin

theorem exists_reaches (hon : ∀ t, ∃ m, t ≤ c.ticks m) (k : Nat) (x : UInt32) :
    ∃ m, c.Reaches k x m := by
  have hexists : ∃ m, k < m ∧ c.ticks k + x.toNat ≤ c.ticks m := by
    obtain ⟨m, hm⟩ := hon (c.ticks k + x.toNat)
    exact ⟨m + (k + 1), by omega, hm.trans (c.mono (Nat.le_add_right ..))⟩
  exact ⟨Nat.find hexists, Nat.find_spec hexists, fun _ h => Nat.find_min' hexists h⟩

theorem exists_inTurn_reaches (hon : ∀ t, ∃ m, t ≤ c.ticks m) (k : Nat) (xs : List UInt32) :
    ∃ n, InTurn c.Reaches k xs n := by
  induction xs generalizing k with
  | nil => exact ⟨k, .nil⟩
  | cons x xs ih =>
    obtain ⟨m, hfirst⟩ := exists_reaches hon k x
    obtain ⟨n, hrest⟩ := ih (m + 1)
    exact ⟨n, .cons hfirst hrest⟩

theorem neverShort_delay (hlow : c.OnLow hw) (x : UInt32) :
    c.NeverShort hw past (delay x) x.toNat := by
  intro limit hok
  obtain ⟨m, hm, hstops⟩ := exists_stops_of_delay hlow hok
  exact ⟨m, hstops.1.1, hstops.passed, record_delay hlow hstops hm⟩

theorem neverShort_forM (hlow : c.OnLow hw) (hxs : xs ≠ []) :
    c.NeverShort hw past (xs.forM delay) (xs.map UInt32.toNat).sum := by
  intro limit hok
  obtain ⟨n, hturn, hrecord⟩ := exists_inTurn_of_forM hlow hok
  obtain ⟨x, xs, rfl⟩ := List.exists_cons_of_ne_nil hxs
  obtain ⟨m, rfl, hkm, hpassed⟩ := passed_of_inTurn hturn
  exact ⟨m, hkm, hpassed, hrecord⟩

end Counter

/-- Wraps behind the first look, and is a quarter of a turn further at each. -/
def Counter.striding : Counter where
  ticks n := 0xFFFFFFFF + 2 ^ 30 * n
  mono _ _ h := by
    dsimp only
    omega

theorem Counter.reaches_striding {k : Nat} {x : UInt32} (i : Nat)
    (hx : 2 ^ 30 * i < x.toNat ∧ x.toNat ≤ 2 ^ 30 * (i + 1)) :
    striding.Reaches k x (k + i + 1) := by
  refine ⟨⟨by omega, ?_⟩, fun n hn => ?_⟩
  · change 0xFFFFFFFF + 2 ^ 30 * k + x.toNat ≤ 0xFFFFFFFF + 2 ^ 30 * (k + i + 1)
    omega
  · have hpassed : 0xFFFFFFFF + 2 ^ 30 * k + x.toNat ≤ 0xFFFFFFFF + 2 ^ 30 * n := hn.2
    omega

/-- A delay is never too short. It ends at the first look at which its ticks have passed, if the
looks up to there leave room for them in one turn of the low word. A length of time is waited for in
pieces of at most half a turn, so it is never too short either, and looks half a turn apart miss no
end of a piece. The ends are there if the counter goes on. No time at all takes no look. -/
theorem delays_never_short (c : Counter) {hw : Behaviour Board} (hlow : c.OnLow hw)
    (past : List (Access Board)) :
    (∀ ticks, c.NeverShort hw past (delay ticks) ticks.toNat ∧
      ∀ m, c.Reaches past.length ticks m → c.Close (2 ^ 32 - ticks.toNat) past.length m →
        c.EndsBefore hw past (delay ticks) (m + 1)) ∧
    ∀ time : Duration, ∃ xs,
      xs = pieces longestDelay time.microseconds ∧
      waitFor time = xs.forM delay ∧
      (∀ x ∈ xs, 0 < x.toNat ∧ x.toNat ≤ 2 ^ 31 - 1) ∧
      (xs.map UInt32.toNat).sum = time.microseconds ∧
      (time.microseconds = 0 → c.EndsBefore hw past (waitFor time) past.length) ∧
      (0 < time.microseconds → c.NeverShort hw past (waitFor time) time.microseconds) ∧
      (∀ n, InTurn c.Reaches past.length xs n → c.Close (2 ^ 31 + 1) past.length (n - 1) →
        c.EndsBefore hw past (waitFor time) n) ∧
      ((∀ t, ∃ m, t ≤ c.ticks m) → ∃ n, InTurn c.Reaches past.length xs n) := by
  have hpos := longestDelay_pos
  have hsize : longestDelay < UInt32.size := by decide
  refine ⟨fun ticks => ⟨Counter.neverShort_delay hlow ticks, ?_⟩, fun time => ?_⟩
  · intro m hreaches hclose limit hlimit
    exact Counter.record_delay hlow (hreaches.stops hclose) (Nat.le_of_succ_le hlimit)
  have hwait : waitFor time = (pieces longestDelay time.microseconds).forM delay :=
    waitMicroseconds_eq time.microseconds
  have hsum := sum_pieces hpos hsize time.microseconds
  refine ⟨_, rfl, hwait, fun x hx => mem_pieces hpos hsize hx, hsum, ?_, ?_, ?_, ?_⟩
  · intro hzero limit hlimit
    rw [hwait, hzero, pieces_zero]
    exact Counter.record_forM hlow .nil hlimit
  · intro htime
    have hne : pieces longestDelay time.microseconds ≠ [] := by
      intro hnil
      rw [hnil] at hsum
      exact Nat.ne_of_lt htime hsum
    have hshort : c.NeverShort hw past _ _ := Counter.neverShort_forM hlow hne
    rwa [hsum, ← hwait] at hshort
  · intro n hturn hclose limit hlimit
    rw [hwait]
    have hpieces : ∀ x ∈ pieces longestDelay time.microseconds, x.toNat ≤ longestDelay :=
      fun x hx => (mem_pieces hpos hsize hx).2
    exact Counter.record_forM hlow (Counter.inTurn_stops hturn hpieces hclose) hlimit
  · exact fun hon => Counter.exists_inTurn_reaches hon past.length _

/-- Half a turn of the counter takes a full delay and one tick more. -/
theorem delays_never_short_striding :
    (waitFor ⟨2147483648000⟩ 9).record Counter.striding.board [] = Counter.striding.watch 0 5 ∧
      Counter.striding.ticks 0 + 2 ^ 31 ≤ Counter.striding.ticks 4 := by
  obtain ⟨xs, hxs, -, -, -, -, -, hends, -⟩ :=
    (delays_never_short Counter.striding (Counter.onLow_board _) []).2 ⟨2147483648000⟩
  have hpieces : xs = [0x7FFFFFFF, 1] := hxs.trans (by decide +kernel)
  subst hpieces
  have hfull : Counter.striding.Reaches 0 0x7FFFFFFF 2 := Counter.reaches_striding 1 (by decide)
  have hrest : Counter.striding.Reaches 3 1 4 := Counter.reaches_striding 0 (by decide)
  refine ⟨hends 5 (.cons hfull (.cons hrest .nil)) ?_ 9 (by decide), by decide⟩
  intro n _ _
  change 0xFFFFFFFF + 2 ^ 30 * (n + 1) ≤ 0xFFFFFFFF + 2 ^ 30 * n + (2 ^ 31 + 1)
  omega

end Bcm2835.SystemTimer
