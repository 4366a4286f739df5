import Mathlib.Algebra.GroupWithZero.Nat
import Bcm2835.Proofs.Mapping

/-! The record of the device tree and the lookup of the base. A record is found by cutting eight
bytes off a slice (`parse`) or by filling a buffer from a stream (`fill`); both find the record
whose encoding the bytes start with, or both find none (`parse_eq_some`, `runs_readFrom`). The
lookup reads one file, once, and has an answer for everything the system may say about it. -/

namespace Bcm2835

namespace SocRanges

/-! ## Words as bytes -/

theorem toNat_bigEndian (a b c d : UInt8) :
    (bigEndian a b c d).toNat =
      a.toNat * 2 ^ 24 + b.toNat * 2 ^ 16 + c.toNat * 2 ^ 8 + d.toNat := by
  have ha := a.toNat_lt
  have hb := b.toNat_lt
  have hc := c.toNat_lt
  have hd := d.toNat_lt
  have shifted (x : UInt8) (k : Nat) (hk : k ≤ 24) :
      (x.toUInt32 <<< UInt32.ofNat k).toNat = x.toNat <<< k := by
    have hx := x.toNat_lt
    have hlt : x.toNat * 2 ^ k < 2 ^ 32 :=
      calc x.toNat * 2 ^ k < 2 ^ 8 * 2 ^ 24 :=
            Nat.mul_lt_mul_of_lt_of_le hx (Nat.pow_le_pow_right (by decide) hk) (by decide)
        _ = 2 ^ 32 := by decide
    rw [UInt32.toNat_shiftLeft, UInt32.toNat_ofNat_of_lt' (by simp only [UInt32.size]; omega),
      Nat.mod_eq_of_lt (show k < 32 by omega), UInt8.toNat_toUInt32, Nat.shiftLeft_eq,
      Nat.mod_eq_of_lt hlt]
  have h24 := shifted a 24 (by decide)
  have h16 := shifted b 16 (by decide)
  have h8 := shifted c 8 (by decide)
  simp only [bigEndian, UInt32.toNat_or, UInt8.toNat_toUInt32]
  rw [show (24 : UInt32) = UInt32.ofNat 24 from rfl, show (16 : UInt32) = UInt32.ofNat 16 from rfl,
    show (8 : UInt32) = UInt32.ofNat 8 from rfl, h24, h16, h8, Nat.or_assoc, Nat.or_assoc]
  -- from the last byte on, what is below a shifted byte does not reach into it
  rw [← Nat.shiftLeft_add_eq_or_of_lt (i := 8) hd, ← Nat.shiftLeft_add_eq_or_of_lt (i := 16),
    ← Nat.shiftLeft_add_eq_or_of_lt (i := 24)]
  all_goals simp only [Nat.shiftLeft_eq]
  all_goals omega

theorem toNat_byte (w : UInt32) {k : Nat} (hk : k < 32) :
    (w >>> UInt32.ofNat k).toUInt8.toNat = w.toNat / 2 ^ k % 2 ^ 8 := by
  rw [UInt32.toNat_toUInt8, UInt32.toNat_shiftRight,
    UInt32.toNat_ofNat_of_lt' (by simp only [UInt32.size]; omega), Nat.mod_eq_of_lt hk,
    Nat.shiftRight_eq_div_pow]

/-- The bytes of a word are the four that make it up. -/
theorem bytesOf_eq_iff {w : UInt32} {a b c d : UInt8} :
    bytesOf w = [a, b, c, d] ↔ w = bigEndian a b c d := by
  have hw := w.toNat_lt
  have ha := a.toNat_lt
  have hb := b.toNat_lt
  have hc := c.toNat_lt
  have hd := d.toNat_lt
  have h24 := toNat_byte w (k := 24) (by decide)
  have h16 := toNat_byte w (k := 16) (by decide)
  have h8 := toNat_byte w (k := 8) (by decide)
  have h0 : w.toUInt8.toNat = w.toNat % 2 ^ 8 := UInt32.toNat_toUInt8 w
  simp only [bytesOf, List.cons.injEq, and_true, ← UInt8.toNat_inj, ← UInt32.toNat_inj,
    toNat_bigEndian]
  rw [show (24 : UInt32) = UInt32.ofNat 24 from rfl, show (16 : UInt32) = UInt32.ofNat 16 from rfl,
    show (8 : UInt32) = UInt32.ofNat 8 from rfl, h24, h16, h8, h0]
  omega

theorem bytesOf_bigEndian (a b c d : UInt8) : bytesOf (bigEndian a b c d) = [a, b, c, d] :=
  bytesOf_eq_iff.2 rfl

theorem bytesOf_injective {v w : UInt32} (h : bytesOf v = bytesOf w) : v = w :=
  (bytesOf_eq_iff.1 h).trans (bytesOf_eq_iff.1 rfl).symm

theorem encode_injective {r r' : SocRanges} (h : r.encode = r'.encode) : r = r' := by
  obtain ⟨hbus, hcpu⟩ := List.append_inj h rfl
  cases r
  cases r'
  exact congr (congrArg SocRanges.mk (bytesOf_injective hbus)) (bytesOf_injective hcpu)

theorem encode_ofRecord (v : Vector UInt8 recordLength) : (ofRecord v).encode = v.toList := by
  rw [encode, ofRecord, bytesOf_bigEndian, bytesOf_bigEndian]
  match v with
  | ⟨⟨[_, _, _, _, _, _, _, _]⟩, _⟩ => rfl

theorem ofRecord_eq_iff {v : Vector UInt8 recordLength} {r : SocRanges} :
    ofRecord v = r ↔ r.encode = v.toList := by
  constructor
  · rintro rfl
    exact encode_ofRecord v
  · intro h
    exact encode_injective ((encode_ofRecord v).trans h.symm)

/-! ## The two decoders -/

variable {bytes : List UInt8} {r : SocRanges}

theorem parse_eq_some : parse bytes = some r ↔ r.encode = bytes.take recordLength := by
  rw [parse]
  split
  · rw [Option.some.injEq, ofRecord_eq_iff]
    rfl
  · next h =>
    constructor
    · intro hnone
      cases hnone
    · intro hr
      exact absurd (congrArg List.length hr).symm h

theorem parse_eq_none : parse bytes = none ↔ bytes.length < recordLength := by
  rw [parse]
  split
  · next h =>
    have hle : recordLength ≤ bytes.length := by
      rw [List.length_take] at h
      omega
    simp [Nat.not_lt.2 hle]
  · next h =>
    have hlt : bytes.length < recordLength := by
      rw [List.length_take] at h
      omega
    simp [hlt]

theorem parse_encode_append (r : SocRanges) (trailing : List UInt8) :
    parse (r.encode ++ trailing) = some r :=
  parse_eq_some.2 (List.take_left' rfl).symm

theorem fill_cons_ok {n : Nat} {b : UInt8} {v : Vector UInt8 n} (h : fill n bytes = .ok v) :
    ∃ w : Vector UInt8 (n + 1), fill (n + 1) (b :: bytes) = .ok w ∧ w.toList = b :: v.toList := by
  refine ⟨(#v[b] ++ v).cast (Nat.add_comm 1 n), ?_, ?_⟩
  · rw [fill, h]
    rfl
  · rw [Vector.toList_cast, Vector.toList_append]
    rfl

theorem fill_cons_error {n : Nat} {b : UInt8} {e : FileError} (h : fill n bytes = .error e) :
    fill (n + 1) (b :: bytes) = .error e := by
  rw [fill, h]
  rfl

/-- A stream that is long enough fills the buffer with what it starts with. -/
theorem fill_of_le {n : Nat} (h : n ≤ bytes.length) :
    ∃ v : Vector UInt8 n, fill n bytes = .ok v ∧ v.toList = bytes.take n := by
  induction n generalizing bytes with
  | zero => exact ⟨#v[], rfl, rfl⟩
  | succ n ih =>
    match bytes with
    | b :: bs =>
      obtain ⟨v, hv, htake⟩ := ih (Nat.le_of_succ_le_succ h)
      obtain ⟨w, hw, hlist⟩ := fill_cons_ok (b := b) hv
      exact ⟨w, hw, by rw [hlist, htake, List.take_succ_cons]⟩

theorem fill_of_lt {n : Nat} (h : bytes.length < n) : fill n bytes = .error .unexpectedEnd := by
  induction n generalizing bytes with
  | zero => exact absurd h (Nat.not_lt_zero _)
  | succ n ih =>
    match bytes with
    | [] => rfl
    | b :: bs => exact fill_cons_error (ih (Nat.lt_of_succ_lt_succ h))

/-- Filling a buffer from a stream and cutting a slice off decode the same. -/
theorem ofRecord_fill (bytes : List UInt8) :
    ofRecord <$> fill recordLength bytes =
      (parse bytes).elim (.error .unexpectedEnd) .ok := by
  rcases Nat.lt_or_ge bytes.length recordLength with hlt | hle
  · rw [fill_of_lt hlt, parse_eq_none.2 hlt]
    rfl
  · obtain ⟨v, hv, htake⟩ := fill_of_le hle
    rw [hv, parse_eq_some.2 ((encode_ofRecord v).trans htake)]
    rfl

/-! ## Reading the file -/

/-- What the system says about a file has this record in it. -/
def Holds (content : Except FileError (List UInt8)) (r : SocRanges) : Prop :=
  ∃ bytes, content = .ok bytes ∧ parse bytes = some r

/-- Why there is no record in what the system says about a file. -/
inductive Lacks : Except FileError (List UInt8) → FileError → Prop
  | unreadable (cause : FileError) : Lacks (.error cause) cause
  | short {bytes : List UInt8} : bytes.length < recordLength → Lacks (.ok bytes) .unexpectedEnd

theorem lacks_iff {content : Except FileError (List UInt8)} {e : FileError} :
    Lacks content e ↔ content = .error e ∨
      ∃ bytes, content = .ok bytes ∧ bytes.length < recordLength ∧ e = .unexpectedEnd := by
  constructor
  · rintro (_ | hlt)
    · exact .inl rfl
    · exact .inr ⟨_, rfl, hlt, rfl⟩
  · rintro (rfl | ⟨bytes, rfl, hlt, rfl⟩)
    · exact .unreadable e
    · exact .short hlt

/-- The record in a file, or the reason why there is none. -/
def decode : Except FileError (List UInt8) → Except FileError SocRanges
  | .ok bytes => (parse bytes).elim (.error .unexpectedEnd) .ok
  | .error cause => .error cause

theorem decode_eq_ok {content : Except FileError (List UInt8)} :
    decode content = .ok r ↔ Holds content r := by
  cases content with
  | error cause => simp [decode, Holds]
  | ok bytes => cases h : parse bytes <;> simp [decode, Holds, h]

theorem decode_eq_error {content : Except FileError (List UInt8)} {e : FileError} :
    decode content = .error e ↔ Lacks content e := by
  cases content with
  | error cause =>
    constructor
    · rintro ⟨⟩
      exact .unreadable _
    · rintro ⟨⟩
      rfl
  | ok bytes =>
    cases h : parse bytes with
    | none =>
      have hlt := parse_eq_none.1 h
      simp only [decode, h]
      constructor
      · rintro ⟨⟩
        exact .short hlt
      · rintro ⟨⟩
        rfl
    | some r =>
      simp only [decode, h]
      constructor
      · rintro ⟨⟩
      · rintro (_ | hlt)
        rw [parse_eq_none.2 hlt] at h
        cases h

variable {path : String} {fallback : UInt32} {limit : Nat} {T : Transcript Host}

theorem decode_eq (content : Except FileError (List UInt8)) :
    (content >>= fun bytes => ofRecord <$> fill recordLength bytes) = decode content := by
  cases content with
  | error cause => rfl
  | ok bytes => exact ofRecord_fill bytes

theorem readFrom_eq :
    readFrom path limit = .request (I := Host) (.readFile path) fun content =>
      .halt (.ok (decode content)) := by
  rw [readFrom_apply]
  exact congrArg (Tree.request _) (funext fun content =>
    congrArg (Tree.halt ∘ Outcome.ok) (decode_eq content))

theorem peripheralBase_eq :
    peripheralBase path fallback limit = .request (I := Host) (.readFile path) fun content =>
      match decode content with
      | .ok r =>
        if r.matchesBus then .halt (.ok r.cpu)
        else .report (.foreignBus path r.bus Layout.busBase) (.halt (.ok r.cpu))
      | .error cause => .report (.noRecord path cause fallback) (.halt (.ok fallback)) := by
  rw [peripheralBase_apply]
  refine congrArg (Tree.request _) (funext fun content => ?_)
  match content with
  | .error cause => rfl
  | .ok bytes =>
    simp only [bind, Except.bind, ofRecord_fill]
    rfl

theorem runs_readFrom {s : Stop (Except FileError SocRanges)} :
    (readFrom path limit).Runs T s ↔ ∃ content : Except FileError (List UInt8),
      T = [.access ⟨.readFile path, content⟩] ∧ s = .ended (.ok (decode content)) := by
  rw [readFrom_eq, Tree.runs_request]
  refine exists_congr fun content => ?_
  simp only [Tree.runs_halt]
  constructor
  · rintro ⟨U, rfl, rfl, rfl⟩
    exact ⟨rfl, rfl⟩
  · rintro ⟨rfl, rfl⟩
    exact ⟨[], rfl, rfl, rfl⟩

/-- What the lookup answers and reports, for what the system says about the file. -/
inductive Finds (path : String) (fallback : UInt32) (content : Except FileError (List UInt8)) :
    UInt32 → List Notice → Prop
  | native {r : SocRanges} : Holds content r → r.bus = Layout.busBase →
    Finds path fallback content r.cpu []
  | foreign {r : SocRanges} : Holds content r → r.bus ≠ Layout.busBase →
    Finds path fallback content r.cpu [.foreignBus path r.bus Layout.busBase]
  | missing {cause : FileError} : Lacks content cause →
    Finds path fallback content fallback [.noRecord path cause fallback]

theorem runs_report_halt {n : Notice} {base : UInt32} {s : Stop UInt32} :
    (Tree.report n (.halt (.ok base)) : Tree Host UInt32).Runs T s ↔
      T = [.report n] ∧ s = .ended (.ok base) := by
  simp only [Tree.runs_report, Tree.runs_halt]
  constructor
  · rintro ⟨U, rfl, rfl, rfl⟩
    exact ⟨rfl, rfl⟩
  · rintro ⟨rfl, rfl⟩
    exact ⟨[], rfl, rfl, rfl⟩

theorem Holds.not_lacks {content : Except FileError (List UInt8)} {e : FileError}
    (h : Holds content r) : ¬ Lacks content e := by
  intro hlacks
  have hok := decode_eq_ok.2 h
  rw [decode_eq_error.2 hlacks] at hok
  cases hok

theorem Holds.unique {content : Except FileError (List UInt8)} {r' : SocRanges}
    (h : Holds content r) (h' : Holds content r') : r = r' :=
  Except.ok.inj ((decode_eq_ok.2 h).symm.trans (decode_eq_ok.2 h'))

theorem runs_peripheralBase {s : Stop UInt32} :
    (peripheralBase path fallback limit).Runs T s ↔
      ∃ content base notices, T = .access ⟨.readFile path, content⟩ :: notices.map .report ∧
        s = .ended (.ok base) ∧ Finds path fallback content base notices := by
  rw [peripheralBase_eq, Tree.runs_request]
  refine exists_congr fun content => ?_
  cases hfile : decode content with
  | error cause =>
    have hlacks := decode_eq_error.1 hfile
    simp only [runs_report_halt]
    constructor
    · rintro ⟨U, rfl, rfl, rfl⟩
      exact ⟨fallback, _, rfl, rfl, .missing hlacks⟩
    · rintro ⟨_, _, rfl, rfl, h⟩
      cases h with
      | native hr _ | foreign hr _ => exact absurd hlacks hr.not_lacks
      | missing hcause =>
        cases Except.error.inj (hfile.symm.trans (decode_eq_error.2 hcause))
        exact ⟨_, rfl, rfl, rfl⟩
  | ok r =>
    have hr := decode_eq_ok.1 hfile
    by_cases hbus : r.bus = Layout.busBase
    · simp only [matchesBus, hbus, decide_true, if_true, Tree.runs_halt]
      constructor
      · rintro ⟨U, rfl, rfl, rfl⟩
        exact ⟨r.cpu, [], rfl, rfl, .native hr hbus⟩
      · rintro ⟨_, _, rfl, rfl, h⟩
        cases h with
        | native hr' _ => cases hr.unique hr'; exact ⟨[], rfl, rfl, rfl⟩
        | foreign hr' hne => cases hr.unique hr'; exact absurd hbus hne
        | missing hlacks => exact absurd hlacks hr.not_lacks
    · simp only [matchesBus, hbus, decide_false, Bool.false_eq_true, if_false, runs_report_halt]
      constructor
      · rintro ⟨U, rfl, rfl, rfl⟩
        exact ⟨r.cpu, _, rfl, rfl, .foreign hr hbus⟩
      · rintro ⟨_, _, rfl, rfl, h⟩
        cases h with
        | native hr' heq => cases hr.unique hr'; exact absurd heq hbus
        | foreign hr' _ => cases hr.unique hr'; exact ⟨_, rfl, rfl, rfl⟩
        | missing hlacks => exact absurd hlacks hr.not_lacks

theorem Finds.warns_iff {content : Except FileError (List UInt8)} {base : UInt32}
    {notices : List Notice} (h : Finds path fallback content base notices) :
    (∃ n ∈ notices, n.level = .warn) ↔ ∃ r, Holds content r ∧ r.bus ≠ Layout.busBase := by
  cases h with
  | native hr hbus =>
    refine iff_of_false (by simp) fun ⟨r', hr', hne⟩ => hne ?_
    rw [← hr.unique hr']
    exact hbus
  | foreign hr hbus => exact iff_of_true ⟨_, List.mem_singleton_self _, rfl⟩ ⟨_, hr, hbus⟩
  | missing hlacks =>
    refine iff_of_false ?_ fun ⟨r, hr, _⟩ => hr.not_lacks hlacks
    simp [Notice.level]

theorem Finds.base_eq {content : Except FileError (List UInt8)} {base : UInt32}
    {notices : List Notice} (h : Finds path fallback content base notices) :
    (∃ r, Holds content r ∧ base = r.cpu) ∨ ∃ cause, Lacks content cause ∧ base = fallback := by
  cases h with
  | native hr _ | foreign hr _ => exact .inl ⟨_, hr, rfl⟩
  | missing hlacks => exact .inr ⟨_, hlacks, rfl⟩

end SocRanges

theorem runs_resolveBase_iff {c : MapConfig} {limit : Nat} {T : Transcript Host}
    {s : Stop UInt32} :
    (c.resolveBase limit).Runs T s ↔
      (∃ base, c.base = some base ∧ T = [] ∧ s = .ended (.ok base)) ∨
        c.base = none ∧ (SocRanges.peripheralBase c.rangesPath c.fallback limit).Runs T s := by
  cases hc : c.base with
  | some base =>
    have hforced : c.resolveBase limit = .halt (.ok base) := by
      rw [MapConfig.resolveBase, hc]
      rfl
    simp [hforced]
  | none =>
    have hlookup : c.resolveBase = SocRanges.peripheralBase c.rangesPath c.fallback := by
      rw [MapConfig.resolveBase, hc]
    simp [hlookup]

open SocRanges in
/-- Both decoders take the record whose encoding the bytes start with, and there is one exactly if
there are eight bytes. The lookup reads the file once and never fails: its answer is the processor's
address in the record, with a warning if the bus address is a foreign one, or else the fallback. A
base that is given is taken as it is, and then no file is read. -/
theorem base_lookup_agrees :
    (∀ bytes r, parse bytes = some r ↔ r.encode = bytes.take recordLength) ∧
    (∀ bytes, parse bytes = none ↔ bytes.length < recordLength) ∧
    (∀ b c trailing, parse (bytesOf b ++ bytesOf c ++ trailing) = some ⟨b, c⟩) ∧
    (∀ path limit T s, (readFrom path limit).Runs T s ↔
      ∃ (content : Except FileError (List UInt8)) (result : Except FileError SocRanges),
        T = [.access ⟨.readFile path, content⟩] ∧ s = .ended (.ok result) ∧
        (∀ r, result = .ok r ↔ ∃ bytes, content = .ok bytes ∧ parse bytes = some r) ∧
        ∀ e, result = .error e ↔ content = .error e ∨
          ∃ bytes, content = .ok bytes ∧ bytes.length < recordLength ∧ e = .unexpectedEnd) ∧
    (∀ path fallback limit T s, (peripheralBase path fallback limit).Runs T s ↔
      ∃ (content : Except FileError (List UInt8)) (base : UInt32) (notices : List Notice),
        T = .access ⟨.readFile path, content⟩ :: notices.map .report ∧ s = .ended (.ok base) ∧
        Finds path fallback content base notices ∧
        ((∃ r, Holds content r ∧ base = r.cpu) ∨ ∃ cause, Lacks content cause ∧ base = fallback) ∧
        ((∃ n ∈ notices, n.level = .warn) ↔ ∃ r, Holds content r ∧ r.bus ≠ Layout.busBase)) ∧
    ∀ (c : MapConfig) limit T s, (c.resolveBase limit).Runs T s ↔
      (∃ base, c.base = some base ∧ T = [] ∧ s = .ended (.ok base)) ∨
        c.base = none ∧ (peripheralBase c.rangesPath c.fallback limit).Runs T s := by
  refine ⟨fun _ _ => parse_eq_some, fun _ => parse_eq_none,
    fun b c trailing => parse_encode_append ⟨b, c⟩ trailing, ?_, ?_,
    fun _ _ _ _ => runs_resolveBase_iff⟩
  · intro path limit T s
    rw [runs_readFrom]
    refine exists_congr fun content => ?_
    constructor
    · rintro ⟨hT, hs⟩
      refine ⟨decode content, hT, hs, fun _ => decode_eq_ok, ?_⟩
      exact fun _ => decode_eq_error.trans lacks_iff
    · rintro ⟨result, hT, hs, hok, herror⟩
      have hresult : decode content = result := by
        cases result with
        | ok r => exact decode_eq_ok.2 ((hok r).1 rfl)
        | error e => exact decode_eq_error.2 (lacks_iff.2 ((herror e).1 rfl))
      exact ⟨hT, hresult ▸ hs⟩
  · intro path fallback limit T s
    rw [runs_peripheralBase]
    constructor
    · rintro ⟨content, base, notices, hT, hs, h⟩
      exact ⟨content, base, notices, hT, hs, h, h.base_eq, h.warns_iff⟩
    · rintro ⟨content, base, notices, hT, hs, h, -, -⟩
      exact ⟨content, base, notices, hT, hs, h⟩

/-- An asymmetric record with a byte behind it. -/
example : SocRanges.parse [0x7E, 0x01, 0x02, 0x03, 0xFE, 0x04, 0x05, 0x06, 0x00] =
    some ⟨0x7E010203, 0xFE040506⟩ := by decide

end Bcm2835
