import Mathlib.Data.List.Basic
import Bcm2835.Proofs.Gpio.Functions
import Bcm2835.Proofs.Session

/-! Operations on pins in a row. On registers that read as what they hold, an operation does to a
pin what it says and to the other pins nothing (`Action.after_runs`), so behind any row of
operations each pin has the function it was set to last, and two settings of different pins can
change places. -/

namespace Bcm2835.Gpio

open Program Board

/-! ## The bits of the banks -/

theorem toNat_bit (pin : Pin) : (bit pin).toNat = 2 ^ (pin.val % 32) := by
  have hlt : pin.val % 32 < 32 := Nat.mod_lt _ (Nat.succ_pos 31)
  have hshift : (UInt32.ofNat (pin.val % 32)).toNat % 32 = pin.val % 32 := by
    rw [UInt32.toNat_ofNat_of_lt' (Nat.lt_trans hlt (by decide)), Nat.mod_eq_of_lt hlt]
  have hpow : 2 ^ (pin.val % 32) < 2 ^ 32 := Nat.pow_lt_pow_right (Nat.lt_succ_self 1) hlt
  rw [bit, UInt32.toNat_shiftLeft, hshift, UInt32.toNat_one, Nat.one_shiftLeft]
  exact Nat.mod_eq_of_lt hpow

theorem testBit_bit (pin : Pin) (j : Nat) :
    (bit pin).toNat.testBit j = decide (pin % 32 = j) := by
  rw [toNat_bit, Nat.testBit_two_pow]

/-- The look at a bank that `read` makes tells the bit of the pin. -/
theorem and_bit_ne_zero (pin : Pin) (w : UInt32) :
    (w &&& bit pin != 0) = w.toNat.testBit (pin % 32) := by
  have hlt : pin.val % 32 < 32 := Nat.mod_lt _ (Nat.succ_pos 31)
  rw [Bool.eq_iff_iff, bne_iff_ne, Ne, Word.eq_zero_iff]
  constructor
  · intro h
    push Not at h
    obtain ⟨j, -, hj⟩ := h
    rw [Bool.ne_false_iff, Word.testBit_and, testBit_bit, Bool.and_eq_true,
      decide_eq_true_iff] at hj
    rw [hj.2]
    exact hj.1
  · intro hbit h
    have hzero := h (pin % 32) hlt
    rw [Word.testBit_and, testBit_bit, hbit] at hzero
    simp at hzero

/-! ## One operation -/

/-- What can be done with the pins. -/
inductive Action where
  | configure (pin : UInt8) (f : PinFunction)
  | set (pin : UInt8)
  | clear (pin : UInt8)
  | read (pin : UInt8)
  | setPull (pin : UInt8) (pull : Pull)
  deriving DecidableEq, Repr

/-- The word with the bit of the pin alone goes to the bank of the pin. -/
def Strikes (r : Register) (pin : Pin) (A : List (Access Board)) : Prop :=
  ∃ w, A = [wroteAt (r.slot (pin / 32)) w] ∧ w.toNat = 2 ^ (pin.val % 32)

/-- The pin is clocked while the pull is up, and no other pin is; all of it is taken back. -/
structure Latches (pin : Pin) (pull : Pull) (A : List (Access Board)) : Prop where
  /-- A clock bit goes up only for the pin, and under the pull. -/
  alone : Everywhere (fun P a _ => ∀ (m : Contents) (i j : Nat),
    (m.after P (GpioBlock.pudclk.slot i)).toNat.testBit j = false →
    (m.after (P ++ [a]) (GpioBlock.pudclk.slot i)).toNat.testBit j = true →
    i = pin / 32 ∧ j = pin % 32 ∧ m.after P GpioBlock.pud.offset = pull.code) A
  /-- The clock bit of the pin is up while the pull is. -/
  clocked : ∀ m : Contents, ∃ P Q, A = P ++ Q ∧
    (m.after P (GpioBlock.pudclk.slot (pin / 32))).toNat.testBit (pin % 32) = true ∧
    m.after P GpioBlock.pud.offset = pull.code
  released : ∀ m : Contents, m.after A GpioBlock.pud.offset = 0 ∧
    m.after A (GpioBlock.pudclk.slot (pin / 32)) = 0
  elsewhere : ∀ (m : Contents) o, o ≠ GpioBlock.pud.offset → o ≠ GpioBlock.pudclk.slot (pin / 32) →
    m.after A o = m o

/-- What the registers hold when a pull was taken back. -/
def released (m : Contents) (pin : Pin) : Contents :=
  Function.update (Function.update m GpioBlock.pud.offset 0) (bank GpioBlock.pudclk pin) 0

namespace Action

def pin : Action → UInt8
  | configure pin _ | set pin | clear pin | read pin | setPull pin _ => pin

/-- No operation on pins answers with a word. -/
def program : Action → Driver (Reply Empty)
  | configure pin f => (fun _ => .done) <$> Gpio.configure pin f
  | set pin => (fun _ => .done) <$> Gpio.set pin
  | clear pin => (fun _ => .done) <$> Gpio.clear pin
  | read pin => .flag <$> Gpio.read pin
  | setPull pin pull => (fun _ => .done) <$> Gpio.setPull pin pull

/-- The setting of a pin that the action is, if it is one. -/
def setting? : Action → Option (Pin × PinFunction)
  | configure pin f => if h : pin.toNat < pinCount then some (⟨pin.toNat, h⟩, f) else none
  | _ => none

/-- What an action on a pin that exists answers, and what it does to the registers. -/
def Serves (pin : Pin) : Action → Except Error (Reply Empty) → List (Access Board) → Prop
  | configure _ f, r, A => r = .ok .done ∧ ∃ v, A = setting pin f v
  | set _, r, A => r = .ok .done ∧ Strikes GpioBlock.set pin A
  | clear _, r, A => r = .ok .done ∧ Strikes GpioBlock.clr pin A
  | read _, r, A => ∃ w, A = [lookedAt (GpioBlock.lev.slot (pin / 32)) w] ∧
    r = .ok (.flag (w.toNat.testBit (pin % 32)))
  | setPull _ pull, r, A => r = .ok .done ∧ Latches pin pull A

/-- What the registers hold behind an action on a pin that exists. -/
def effect (m : Contents) (pin : Pin) : Action → Contents
  | configure _ f => assign m pin f
  | set _ => Function.update m (bank GpioBlock.set pin) (bit pin)
  | clear _ => Function.update m (bank GpioBlock.clr pin) (bit pin)
  | read _ => m
  | setPull _ _ => released m pin

/-- What the registers hold behind an action. -/
def apply (m : Contents) (a : Action) : Contents :=
  if h : a.pin.toNat < pinCount then a.effect m ⟨a.pin.toNat, h⟩ else m

end Action

variable {limit : Nat} {T : Transcript Board} {m : Contents}

theorem pud_ne_pudclk (i : Nat) : GpioBlock.pud.offset ≠ GpioBlock.pudclk.slot i := by
  simp only [GpioBlock.pud, GpioBlock.pudclk, Register.slot]
  omega

theorem pudclk_injective {i j : Nat} (h : GpioBlock.pudclk.slot i = GpioBlock.pudclk.slot j) :
    i = j := by
  simp only [Register.slot] at h
  omega

/-- The accesses of a pull. -/
def pulse (pin : Pin) (pull : Pull) : List (Access Board) :=
  [wrote GpioBlock.pud pull.code, wroteAt (bank GpioBlock.pudclk pin) (bit pin),
    wrote GpioBlock.pud 0, wroteAt (bank GpioBlock.pudclk pin) 0]

theorem after_pulse (m : Contents) (pin : Pin) (pull : Pull) :
    m.after (pulse pin pull) = released m pin := by
  have hne : GpioBlock.pud.offset ≠ bank GpioBlock.pudclk pin := pud_ne_pudclk _
  simp only [pulse, Contents.after_wroteAt, Contents.after_nil, released]
  rw [Function.update_comm hne, Function.update_idem, Function.update_comm hne.symm,
    Function.update_idem]

/-- A bit that a write raises is a bit of the register that is written to and of the word. -/
theorem raised_by {o p : Nat} {w : UInt32} {j : Nat} (hdown : (m p).toNat.testBit j = false)
    (hup : (Function.update m o w p).toNat.testBit j = true) :
    p = o ∧ w.toNat.testBit j = true := by
  by_cases hp : p = o
  · subst hp
    rw [Function.update_self] at hup
    exact ⟨rfl, hup⟩
  · rw [Function.update_of_ne hp, hdown] at hup
    cases hup

theorem latches_pulse (pin : Pin) (pull : Pull) : Latches pin pull (pulse pin pull) where
  alone := by
    simp only [pulse, everywhere_cons]
    refine ⟨?_, ?_, ?_, ?_, everywhere_nil⟩
    · intro m i j hdown hup
      exact absurd (raised_by hdown hup).1.symm (pud_ne_pudclk i)
    · intro m i j hdown hup
      obtain ⟨hslot, hbit⟩ := raised_by hdown hup
      rw [testBit_bit, decide_eq_true_iff] at hbit
      refine ⟨pudclk_injective hslot, hbit.symm, ?_⟩
      rw [Contents.after_wroteAt, Contents.after_nil, Function.update_self]
    · intro m i j hdown hup
      exact absurd (raised_by hdown hup).1.symm (pud_ne_pudclk i)
    · intro m i j hdown hup
      obtain ⟨-, hbit⟩ := raised_by hdown hup
      simp at hbit
  clocked m := by
    refine ⟨[wrote GpioBlock.pud pull.code, wroteAt (bank GpioBlock.pudclk pin) (bit pin)],
      _, rfl, ?_, ?_⟩
    · have hup : Function.update (Function.update m GpioBlock.pud.offset pull.code)
          (bank GpioBlock.pudclk pin) (bit pin) (GpioBlock.pudclk.slot (pin / 32)) = bit pin :=
        Function.update_self ..
      simp only [Contents.after_wroteAt, Contents.after_nil, hup, testBit_bit, decide_true]
    · have hpud : Function.update (Function.update m GpioBlock.pud.offset pull.code)
          (bank GpioBlock.pudclk pin) (bit pin) GpioBlock.pud.offset = pull.code := by
        rw [bank, Function.update_of_ne (pud_ne_pudclk _), Function.update_self]
      simp only [Contents.after_wroteAt, Contents.after_nil, hpud]
  released m := by
    rw [after_pulse, Gpio.released, bank]
    constructor
    · rw [Function.update_of_ne (pud_ne_pudclk _), Function.update_self]
    · exact Function.update_self ..
  elsewhere m o hpud hclk := by
    rw [after_pulse, Gpio.released, bank, Function.update_of_ne hclk, Function.update_of_ne hpud]

/-! ## Runs of one operation -/

variable {pin : UInt8}

/-- A pin that does not exist is refused before anything is touched. -/
theorem runs_check_bind {α : Type} {body : Pin → Driver α} {s : Stop α}
    (h : pinCount ≤ pin.toNat) (hT : ((check pin >>= body) limit).Runs T s) :
    T = [] ∧ s = .ended (.error (.invalidPin pin)) := by
  rw [check_apply_of_le h] at hT
  exact Tree.runs_halt.1 hT

theorem runs_strike {r : Register} {s : Stop Unit} (h : pin.toNat < pinCount)
    (hT : ((check pin >>= fun pin => Register.setAt (bank r pin) (bit pin)) limit).Runs T s) :
    T.accesses = [wroteAt (bank r ⟨pin.toNat, h⟩) (bit ⟨pin.toNat, h⟩)] ∧ s = .ended (.ok ()) := by
  rw [check_apply_of_lt h] at hT
  obtain ⟨u, U, rfl, hU⟩ := Tree.runs_request.1 hT
  obtain ⟨rfl, rfl⟩ := Tree.runs_halt.1 hU
  exact ⟨rfl, rfl⟩

theorem runs_read {s : Stop Bool} (h : pin.toNat < pinCount) (hT : (read pin limit).Runs T s) :
    ∃ w, T.accesses = [lookedAt (bank GpioBlock.lev ⟨pin.toNat, h⟩) w] ∧
      s = .ended (.ok (w.toNat.testBit (pin.toNat % 32))) := by
  rw [read, check_apply_of_lt h] at hT
  obtain ⟨w, U, rfl, hU⟩ := Tree.runs_request.1 hT
  obtain ⟨rfl, rfl⟩ := Tree.runs_halt.1 hU
  exact ⟨w, rfl, congrArg (fun up => Stop.ended (.ok up)) (and_bit_ne_zero ⟨pin.toNat, h⟩ w)⟩

theorem runs_setPull {s : Stop Unit} {pull : Pull} (h : pin.toNat < pinCount)
    (hT : (setPull pin pull limit).Runs T s) :
    T.accesses = pulse ⟨pin.toNat, h⟩ pull ∧ s = .ended (.ok ()) := by
  have hcode : (GpioPud.pud.val pull.code).value = pull.code := by cases pull <;> rfl
  rw [setPull, check_apply_of_lt h] at hT
  obtain ⟨u, U, rfl, hU⟩ := Tree.runs_request.1 hT
  obtain ⟨v, V, rfl, hV⟩ := Tree.runs_request.1 hU
  obtain ⟨w, W, rfl, hW⟩ := Tree.runs_request.1 hV
  obtain ⟨x, X, rfl, hX⟩ := Tree.runs_request.1 hW
  obtain ⟨rfl, rfl⟩ := Tree.runs_halt.1 hX
  rw [hcode]
  exact ⟨rfl, rfl⟩

namespace Action

variable {a : Action}

theorem refused {s : Stop (Reply Empty)} (h : pinCount ≤ a.pin.toNat)
    (hT : (a.program limit).Runs T s) : T = [] ∧ s = .ended (.error (.invalidPin a.pin)) := by
  cases a with
  | configure | set | clear | read | setPull =>
    obtain ⟨s₀, hrun, rfl⟩ := runs_map.1 hT
    obtain ⟨rfl, rfl⟩ := runs_check_bind h hrun
    exact ⟨rfl, rfl⟩

theorem served {s : Stop (Reply Empty)} (h : a.pin.toNat < pinCount)
    (hT : (a.program limit).Runs T s) :
    ∃ r, s.result? = some r ∧ a.Serves ⟨a.pin.toNat, h⟩ r T.accesses := by
  cases a with
  | configure pin f =>
    obtain ⟨s₀, hrun, rfl⟩ := runs_map.1 hT
    obtain ⟨rfl, v, hv⟩ := runs_configure h f hrun
    exact ⟨.ok .done, rfl, rfl, v, hv⟩
  | set pin =>
    obtain ⟨s₀, hrun, rfl⟩ := runs_map.1 hT
    obtain ⟨hA, rfl⟩ := runs_strike h hrun
    exact ⟨.ok .done, rfl, rfl, _, hA, toNat_bit _⟩
  | clear pin =>
    obtain ⟨s₀, hrun, rfl⟩ := runs_map.1 hT
    obtain ⟨hA, rfl⟩ := runs_strike h hrun
    exact ⟨.ok .done, rfl, rfl, _, hA, toNat_bit _⟩
  | read pin =>
    obtain ⟨s₀, hrun, rfl⟩ := runs_map.1 hT
    obtain ⟨w, hA, rfl⟩ := runs_read h hrun
    exact ⟨.ok (.flag _), rfl, w, hA, rfl⟩
  | setPull pin pull =>
    obtain ⟨s₀, hrun, rfl⟩ := runs_map.1 hT
    obtain ⟨hA, rfl⟩ := runs_setPull h hrun
    refine ⟨.ok .done, rfl, rfl, ?_⟩
    rw [hA]
    exact latches_pulse _ pull

theorem after_of_serves {pin : Pin} {r : Except Error (Reply Empty)} {A : List (Access Board)}
    (h : a.Serves pin r A) (hm : m.Keeps FunctionWord A) : m.after A = a.effect m pin := by
  cases a with
  | configure _ f =>
    obtain ⟨-, v, rfl⟩ := h
    exact after_setting hm
  | set | clear =>
    obtain ⟨-, w, rfl, hw⟩ := h
    obtain rfl : w = bit pin := UInt32.toNat_inj.1 (hw.trans (toNat_bit pin).symm)
    rfl
  | read =>
    obtain ⟨w, rfl, -⟩ := h
    rfl
  | setPull _ pull =>
    obtain ⟨-, hlatches⟩ := h
    funext o
    rw [effect, released]
    by_cases hclk : o = bank GpioBlock.pudclk pin
    · rw [hclk, Function.update_self]
      exact (hlatches.released m).2
    · rw [Function.update_of_ne hclk]
      by_cases hpud : o = GpioBlock.pud.offset
      · rw [hpud, Function.update_self]
        exact (hlatches.released m).1
      · rw [Function.update_of_ne hpud]
        exact hlatches.elsewhere m o hpud hclk

theorem apply_configure {pin : UInt8} (h : pin.toNat < pinCount) (m : Contents) (f : PinFunction) :
    apply m (configure pin f) = assign m ⟨pin.toNat, h⟩ f := dif_pos h

theorem apply_of_le (h : pinCount ≤ a.pin.toNat) (m : Contents) : apply m a = m :=
  dif_neg (Nat.not_lt.2 h)

/-- Behind a run of an action the registers hold what the action says. -/
theorem after_runs {s : Stop (Reply Empty)} (hT : (a.program limit).Runs T s)
    (hm : m.Keeps FunctionWord T.accesses) : m.after T.accesses = apply m a := by
  by_cases h : a.pin.toNat < pinCount
  · obtain ⟨r, -, hserves⟩ := served h hT
    rw [apply, dif_pos h, after_of_serves hserves hm]
  · obtain ⟨rfl, -⟩ := refused (Nat.not_lt.1 h) hT
    exact (apply_of_le (Nat.not_lt.1 h) m).symm

/-- Only settings change the words that hold the functions. -/
theorem effect_of_functionWord {pin : Pin} {o : Nat} (h : a.setting? = none)
    (hpin : a.pin.toNat < pinCount) (ho : FunctionWord o) : a.effect m pin o = m o := by
  have hne {r : Register} (hr : GpioBlock.fsel.offset + GpioBlock.fsel.extent ≤ r.offset) :
      o ≠ bank r pin := by
    intro heq
    have hlt : o < GpioBlock.fsel.offset + GpioBlock.fsel.extent := ho.2
    rw [heq, bank, Register.slot] at hlt
    omega
  cases a with
  | configure q f =>
    have hsome : (configure q f).setting? = some (⟨q.toNat, hpin⟩, f) := dif_pos hpin
    rw [hsome] at h
    cases h
  | set => exact Function.update_of_ne (hne (by decide)) ..
  | clear => exact Function.update_of_ne (hne (by decide)) ..
  | read => rfl
  | setPull =>
    have hpud : o ≠ GpioBlock.pud.offset := by
      intro heq
      have hlt : o < GpioBlock.fsel.offset + GpioBlock.fsel.extent := ho.2
      rw [heq] at hlt
      exact absurd hlt (by decide)
    rw [effect, released, Function.update_of_ne (hne (by decide)), Function.update_of_ne hpud]

theorem apply_of_functionWord {o : Nat} (h : a.setting? = none) (ho : FunctionWord o) :
    apply m a o = m o := by
  rw [apply]
  split
  next hpin => exact effect_of_functionWord h hpin ho
  next => rfl

theorem apply_of_setting {pin : Pin} {f : PinFunction} (h : a.setting? = some (pin, f)) :
    apply m a = assign m pin f := by
  cases a with
  | configure p g =>
    rw [setting?] at h
    split at h
    next hpin =>
      cases h
      exact apply_configure hpin m f
    next => cases h
  | set | clear | read | setPull => cases h

theorem apply_configure_comm {p q : UInt8} (h : p ≠ q) (m : Contents) (f g : PinFunction) :
    apply (apply m (configure p f)) (configure q g) =
      apply (apply m (configure q g)) (configure p f) := by
  by_cases hp : p.toNat < pinCount
  · by_cases hq : q.toNat < pinCount
    · have hne : (⟨p.toNat, hp⟩ : Pin) ≠ ⟨q.toNat, hq⟩ := by
        intro heq
        exact h (UInt8.toNat_inj.1 (Fin.mk.inj heq))
      rw [apply_configure hp, apply_configure hq, apply_configure hq, apply_configure hp]
      exact assign_comm hne m f g
    · have hle : pinCount ≤ (configure q g).pin.toNat := Nat.not_lt.1 hq
      rw [apply_of_le hle, apply_of_le hle]
  · have hle : pinCount ≤ (configure p f).pin.toNat := Nat.not_lt.1 hp
    rw [apply_of_le hle, apply_of_le hle]

/-! ## Operations in a row -/

theorem function_foldl (actions : List Action) (m : Contents) (q : Pin) :
    function (actions.foldl apply m) q =
      settled q (actions.filterMap setting?) (function m q) := by
  induction actions generalizing m with
  | nil => rfl
  | cons a actions ih =>
    rw [List.foldl_cons, ih]
    cases h : a.setting? with
    | none =>
      have hword := apply_of_functionWord (m := m) h (functionWord_slot q.isLt)
      rw [List.filterMap_cons_none h, function, hword]
      rfl
    | some x =>
      rw [List.filterMap_cons_some h, apply_of_setting h, function_assign, ← settled_append]
      rfl

theorem spare_foldl (actions : List Action) (m : Contents) {i j : Nat} (hs : Spare i j) :
    (actions.foldl apply m (GpioBlock.fsel.slot i)).toNat.testBit j =
      (m (GpioBlock.fsel.slot i)).toNat.testBit j := by
  induction actions generalizing m with
  | nil => rfl
  | cons a actions ih =>
    rw [List.foldl_cons, ih]
    cases h : a.setting? with
    | none => rw [apply_of_functionWord h hs.functionWord]
    | some x => rw [apply_of_setting h, spare_assign m x.1 x.2 hs]

/-- Behind any operations in a row the registers hold what these say, one after another. -/
theorem after_episodes (episodes : List (Episode program limit))
    (hm : m.Keeps FunctionWord (episodes.flatMap fun e => e.transcript.accesses)) :
    m.after (episodes.flatMap fun e => e.transcript.accesses) =
      (episodes.map Episode.action).foldl apply m := by
  induction episodes generalizing m with
  | nil => rfl
  | cons e episodes ih =>
    rw [List.flatMap_cons] at hm ⊢
    obtain ⟨hfirst, hrest⟩ := Contents.keeps_append.1 hm
    rw [Contents.after_append, ih hrest, after_runs e.runs hfirst]
    rfl

theorem result?_isSome {s : Stop (Reply Empty)} (hT : (a.program limit).Runs T s) :
    s.result?.isSome := by
  by_cases h : a.pin.toNat < pinCount
  · obtain ⟨r, hr, -⟩ := served h hT
    rw [hr]
    rfl
  · obtain ⟨-, rfl⟩ := refused (Nat.not_lt.1 h) hT
    rfl

end Action

/-- An operation that was refused for its pin, or did to this pin what it says. -/
structure Proper (e : Episode Action.program limit) : Prop where
  refused : pinCount ≤ e.action.pin.toNat →
    e.result? = some (.error (.invalidPin e.action.pin)) ∧ e.transcript.accesses = []
  served : ∀ h : e.action.pin.toNat < pinCount, ∃ r,
    e.result? = some r ∧ e.action.Serves ⟨e.action.pin.toNat, h⟩ r e.transcript.accesses

theorem proper (e : Episode Action.program limit) : Proper e where
  refused h := by
    obtain ⟨hT, hs⟩ := Action.refused h e.runs
    rw [Episode.result?, hs, hT]
    exact ⟨rfl, rfl⟩
  served h := Action.served h e.runs

variable {actions : List Action} {s : Stop (List (Except Error (Reply Empty)))}

/-- The session comes to its end, and its operations are all proper. -/
theorem runs_actions (h : (session Action.program actions limit).Runs T s) :
    ∃ results, ∃ episodes : List (Episode Action.program limit), s = .ended (.ok results) ∧
      Divides actions T s episodes ∧ ∀ e ∈ episodes, Proper e := by
  obtain ⟨results, hs⟩ := session_ends (fun _ _ _ hT => Action.result?_isSome hT) h
  obtain ⟨episodes, hdivides⟩ := runs_session h
  exact ⟨results, episodes, hs, hdivides, fun e _ => proper e⟩

theorem after_session (h : (session Action.program actions limit).Runs T s)
    (hm : m.Keeps FunctionWord T.accesses) : m.after T.accesses = actions.foldl Action.apply m := by
  obtain ⟨results, episodes, hs, hdivides, -⟩ := runs_actions h
  obtain ⟨hactions, -⟩ := hdivides.complete results hs
  rw [hdivides.accesses_eq] at hm ⊢
  rw [Action.after_episodes episodes hm, hactions]

/-- Any operations in a row, on function words that read as what they hold: each operation is
proper, behind them each pin has the function it was set to last, or the one it had, the bits of no
pin are as they were, and settings of different pins next to each other can change places. -/
theorem operations_keep_to_their_pins (h : (session Action.program actions limit).Runs T s)
    (hm : m.Keeps FunctionWord T.accesses) :
    (∃ results, ∃ episodes : List (Episode Action.program limit), s = .ended (.ok results) ∧
      Divides actions T s episodes ∧ ∀ e ∈ episodes, Proper e) ∧
    (∀ q : Pin, function (m.after T.accesses) q =
      settled q (actions.filterMap Action.setting?) (function m q)) ∧
    (∀ i j, Spare i j → (m.after T.accesses (GpioBlock.fsel.slot i)).toNat.testBit j =
      (m (GpioBlock.fsel.slot i)).toNat.testBit j) ∧
    ∀ before p f q g behind, actions = before ++ .configure p f :: .configure q g :: behind → p ≠ q →
      ∀ U s', (session Action.program (before ++ .configure q g :: .configure p f :: behind)
        limit).Runs U s' → m.Keeps FunctionWord U.accesses →
      m.after U.accesses = m.after T.accesses := by
  have hafter := after_session h hm
  refine ⟨runs_actions h, ?_, ?_, ?_⟩
  · intro q
    rw [hafter, Action.function_foldl]
  · intro i j hs
    rw [hafter, Action.spare_foldl actions m hs]
  · intro before p f q g behind hactions hne U s' hU hmU
    rw [hafter, after_session hU hmU, hactions]
    simp only [List.foldl_append, List.foldl_cons]
    rw [Action.apply_configure_comm hne]

/-- A pin set twice, one that does not exist, and a pull, a level and a look in the other bank. -/
def mixedActions : List Action :=
  [.configure 16 .output, .configure 54 .alt5, .setPull 33 .up, .configure 16 .alt4,
    .configure 17 .input, .set 33, .read 53]

def ones : Contents := fun _ => 0xFFFFFFFF

/-- What is done to pins whose registers hold ones everywhere. -/
def mixedAccesses : List (Access Board) :=
  ((session Action.program mixedActions).record ones.hardware 0).transcript.accesses

theorem operations_keep_to_their_pins_mixedActions :
    ones.Keeps FunctionWord mixedAccesses ∧
    (∃ episodes : List (Episode Action.program 0), episodes.map Episode.action = mixedActions ∧
      episodes.map Episode.result? = [some (.ok .done), some (.error (.invalidPin 54)),
        some (.ok .done), some (.ok .done), some (.ok .done), some (.ok .done),
        some (.ok (.flag true))] ∧ ∀ e ∈ episodes, Proper e) ∧
    function (ones.after mixedAccesses) 15 = 7 ∧ function (ones.after mixedAccesses) 16 = 3 ∧
    function (ones.after mixedAccesses) 17 = 0 := by
  have hm : ones.Keeps FunctionWord mixedAccesses :=
    Contents.keeps_record (by decide) ones (session Action.program mixedActions) 0
  have houtcome : ((session Action.program mixedActions).record ones.hardware 0).outcome =
      .ok [.ok .done, .error (.invalidPin 54), .ok .done, .ok .done, .ok .done, .ok .done,
        .ok (.flag true)] := by decide +kernel
  obtain ⟨⟨-, episodes, -, hdivides, hproper⟩, hfunction, -, -⟩ :=
    operations_keep_to_their_pins
      (Tree.runs_record ones.hardware (session Action.program mixedActions 0) []) hm
  obtain ⟨hactions, hresults⟩ := hdivides.complete _ (congrArg Stop.ended houtcome)
  have h15 := hfunction ⟨15, by decide⟩
  have h16 := hfunction ⟨16, by decide⟩
  have h17 := hfunction ⟨17, by decide⟩
  exact ⟨hm, ⟨episodes, hactions, hresults, hproper⟩, h15, h16, h17⟩

end Bcm2835.Gpio
