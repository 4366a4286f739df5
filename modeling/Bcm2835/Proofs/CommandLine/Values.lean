import Bcm2835.Proofs.Machine
import Bcm2835.Proofs.Text.Numeral

/-! What the arguments for bases and clocks are read as. A base is read from the numerals of 32
bits, hexadecimal or decimal (`readBase_eq_ok`), so the forms in which bases are written are read
again, the one that `info` shows among them. A clock is read by its number or by its name
(`readClock_eq_iff`); as no name is a numeral, no text is read as two clocks. -/

namespace Bcm2835.CommandLine

open Numeral (Denotes)
open Text (AlikeButCase)

/-! ## Base addresses -/

/-- The number of a base: hexadecimal digits behind `0x` or `0X`, decimal ones where that is not in
front. -/
inductive SpellsBase : List Char → Nat → Prop
  | hexadecimal {x : Char} {cs : List Char} {n : Nat} : x = 'x' ∨ x = 'X' → Denotes 16 cs n →
    SpellsBase ('0' :: x :: cs) n
  | decimal {cs : List Char} {n : Nat} : (∀ x rest, x = 'x' ∨ x = 'X' → cs ≠ '0' :: x :: rest) →
    Denotes 10 cs n → SpellsBase cs n

/-- A word is read from the numerals of it. -/
theorem readWord_eq_ok {radix : Nat} (hradix : radix ≤ 36) {cs : List Char}
    {v : UInt32} :
    UInt32.ofNat <$> Numeral.readNat radix 0xFFFFFFFF cs = .ok v ↔ Denotes radix cs v.toNat := by
  have hv : v.toNat ≤ 0xFFFFFFFF := Nat.le_of_lt_succ v.toNat_lt
  rw [show Denotes radix cs v.toNat ↔ Numeral.readNat radix 0xFFFFFFFF cs = .ok v.toNat by
    rw [Numeral.readNat_eq_ok hradix, and_iff_left hv]]
  cases h : Numeral.readNat radix 0xFFFFFFFF cs with
  | error e => exact ⟨nofun, nofun⟩
  | ok n =>
    have hn := ((Numeral.readNat_eq_ok hradix).1 h).2
    change Except.ok (UInt32.ofNat n) = .ok v ↔ _
    rw [Except.ok.injEq, Except.ok.injEq, ← UInt32.toNat_inj,
      UInt32.toNat_ofNat_of_lt' (Nat.lt_succ_of_le hn)]

theorem readBase_eq_ok {text : String} {v : UInt32} :
    readBase text = .ok v ↔ SpellsBase text.toList v.toNat := by
  rw [readBase]
  generalize text.toList = cs
  have hhexadecimal {x : Char} {rest : List Char} (hx : x = 'x' ∨ x = 'X') :
      SpellsBase ('0' :: x :: rest) v.toNat ↔ Denotes 16 rest v.toNat := by
    constructor
    · rintro (⟨-, h⟩ | ⟨hnot, -⟩)
      · exact h
      · exact absurd rfl (hnot x rest hx)
    · exact .hexadecimal hx
  split
  · rw [readWord_eq_ok (by decide), hhexadecimal (.inl rfl)]
  · rw [readWord_eq_ok (by decide), hhexadecimal (.inr rfl)]
  · next hsmall hcapital =>
    rw [readWord_eq_ok (by decide)]
    constructor
    · refine .decimal fun x rest hx hcs => ?_
      rcases hx with rfl | rfl
      · exact hsmall rest hcs
      · exact hcapital rest hcs
    · rintro (⟨rfl | rfl, -⟩ | ⟨-, h⟩)
      · exact absurd rfl (hsmall _)
      · exact absurd rfl (hcapital _)
      · exact h

example : readBase "0X+00fF" = .ok 255 := rfl

theorem readBase_decimal (v : UInt32) : readBase (Numeral.decimal v.toNat) = .ok v := by
  have hspells := Numeral.spells_digits (show 2 ≤ 10 by decide) v.toNat
  rw [readBase_eq_ok, Numeral.decimal, String.toList_ofList]
  refine .decimal (fun x rest hx hcs => ?_) (.plain hspells)
  have hlt := hspells.toNat_toLower_lt (show x ∈ _ by simp [hcs])
  rcases hx with rfl | rfl
  · exact absurd hlt (by decide)
  · exact absurd hlt (by decide)

theorem readBase_address (width : Nat) (v : UInt32) :
    readBase (Numeral.address width v.toNat) = .ok v := by
  rw [readBase_eq_ok, Numeral.address, String.toList_ofList]
  exact .hexadecimal (.inl rfl) (.plain (Numeral.spells_padded (by decide) width _))

/-- The line in which `info` shows a base. -/
def baseLine (shown : String) : String :=
  let size := Numeral.address 1 Layout.blockSize.toNat
  s!"Peripheral base: {shown} ({size} bytes)" ++ "\n"

/-- The first thing that `info` does is to look the base up, and the next to print it. -/
theorem info_prints_base (o : MapOptions) (firmware : Bool) (hw : Behaviour Machine)
    (limit : Nat) : ∃ T base U r,
      (Machine.onHost o.device o.config.resolveBase).record hw limit = ⟨T, .ok base⟩ ∧
      (info o firmware).record hw limit =
        ⟨T ++ .access ⟨.print (baseLine (Numeral.address 8 base.toNat)), ()⟩ :: U, r⟩ := by
  have hruns := Tree.runs_record hw (Machine.onHost o.device o.config.resolveBase limit) []
  obtain ⟨V, hV⟩ := Tree.Runs.of_lower (fun _ _ _ => runs_onDevice) hruns
  obtain ⟨⟨base, hbase⟩, -⟩ := runs_resolveBase hV
  obtain ⟨T, outcome, hrecord⟩ : ∃ T outcome,
      (Machine.onHost o.device o.config.resolveBase limit).record hw [] = ⟨T, outcome⟩ :=
    ⟨_, _, rfl⟩
  rw [hrecord] at hbase
  obtain rfl : outcome = .ok base := Stop.ended.inj hbase
  have hvalid : (Action.run (.during "built-in peripheral layout is inconsistent")
      (Program.ofOutcome (Layout.validate Layout.regions)) limit).record hw [] =
        ⟨[], .ok (.ok ())⟩ := by
    rw [validate_regions]
    rfl
  have hlookup : ((ExceptT.lift (Machine.onHost o.device o.config.resolveBase) :
      Action UInt32) limit).record hw [] = ⟨T, .ok (.ok base)⟩ :=
    (Tree.record_bind_of_ok hrecord).trans (congrArg (Record.mk · _) (List.append_nil T))
  exact ⟨T, base, _, _, hrecord, (Action.record_bind_of_ok hvalid).trans
    (congrArg (Record.behind []) (Action.record_bind_of_ok hlookup))⟩

/-- The texts that are read as a base are the numerals of 32 bits, each as the number it says. The
numbers that are written are read again, and so is the base that `info` shows. -/
theorem reads_exactly_bases :
    (∀ text v, readBase text = .ok v ↔ SpellsBase text.toList v.toNat) ∧
    (∀ text, (∃ e, readBase text = .error e) ↔ ∀ n, SpellsBase text.toList n → 2 ^ 32 ≤ n) ∧
    (∀ v : UInt32, readBase (Numeral.decimal v.toNat) = .ok v ∧
      readBase (Numeral.address 1 v.toNat) = .ok v ∧
      readBase (Numeral.address 8 v.toNat) = .ok v) ∧
    ∀ (o : MapOptions) (firmware : Bool) (hw : Behaviour Machine) (limit : Nat),
      ∃ T base U r shown,
        (Machine.onHost o.device o.config.resolveBase).record hw limit = ⟨T, .ok base⟩ ∧
        (info o firmware).record hw limit =
          ⟨T ++ .access ⟨.print (baseLine shown), ()⟩ :: U, r⟩ ∧
        readBase shown = .ok base := by
  refine ⟨fun _ _ => readBase_eq_ok, fun text => ?_, fun v => ⟨readBase_decimal v,
    readBase_address 1 v, readBase_address 8 v⟩, fun o firmware hw limit => ?_⟩
  · constructor
    · rintro ⟨e, he⟩ n hn
      refine Nat.le_of_not_lt fun hlt => ?_
      have hok : readBase text = .ok (UInt32.ofNat n) := by
        rwa [readBase_eq_ok, UInt32.toNat_ofNat_of_lt' hlt]
      rw [hok] at he
      cases he
    · intro hlarge
      cases h : readBase text with
      | error e => exact ⟨e, rfl⟩
      | ok v => exact absurd (hlarge _ (readBase_eq_ok.1 h)) (Nat.not_le_of_lt v.toNat_lt)
  · obtain ⟨T, base, U, r, hlookup, hinfo⟩ := info_prints_base o firmware hw limit
    exact ⟨T, base, U, r, _, hlookup, hinfo, readBase_address 8 base⟩

/-! ## Clocks -/

/-- The name a clock is called by; the reserved clock has none. -/
def clockName? : Clock → Option String
  | .reserved => none
  | .emmc => some "emmc"
  | .uart => some "uart"
  | .arm => some "arm"
  | .core => some "core"
  | .v3d => some "v3d"
  | .h264 => some "h264"
  | .isp => some "isp"
  | .sdram => some "sdram"
  | .pixel => some "pixel"
  | .pwm => some "pwm"
  | .hevc => some "hevc"
  | .emmc2 => some "emmc2"
  | .m2mc => some "m2mc"
  | .pixelBvb => some "pixel-bvb"

/-- The text is the name of the clock, in letters of either case. -/
def Names (text : String) (c : Clock) : Prop :=
  ∃ name, clockName? c = some name ∧ List.Forall₂ AlikeButCase text.toList name.toList

/-- What a text is read as that is to tell a clock. -/
inductive ClockReading (text : String) : Except ClockError Clock → Prop
  | number {c : Clock} : Denotes 10 text.toList c.number.toNat → ClockReading text (.ok c)
  | name {c : Clock} : Names text c → ClockReading text (.ok c)
  | unknownNumber {n : Nat} : Denotes 10 text.toList n → 14 < n → n < 2 ^ 32 →
    ClockReading text (.error (.unknownNumber n))
  | unknownName : (∀ n, Denotes 10 text.toList n → 2 ^ 32 ≤ n) → (∀ c, ¬ Names text c) →
    ClockReading text (.error (.unknownName text))

theorem mem_clockNames {name : String} {c : Clock} :
    (name, c) ∈ clockNames ↔ clockName? c = some name := by
  constructor
  · intro h
    have hall : ∀ e ∈ clockNames, clockName? e.2 = some e.1 := by decide
    exact hall (name, c) h
  · intro h
    cases c with
    | reserved => cases h
    | _ =>
      obtain rfl := Option.some.inj h
      decide

theorem names_iff {text : String} {c : Clock} :
    Names text c ↔ ∃ name, (name, c) ∈ clockNames ∧ name.toList = text.toList.map Char.toLower := by
  have hsmall : ∀ e ∈ clockNames, e.1.toList.map Char.toLower = e.1.toList := by decide
  refine exists_congr fun name => ?_
  rw [← mem_clockNames, Text.forall₂_alikeButCase]
  refine and_congr_right fun hmem => ?_
  rw [hsmall _ hmem, eq_comm]

theorem clockOfName?_eq_some {text : String} {c : Clock} :
    clockOfName? text = some c ↔ Names text c := by
  have hdistinct : (clockNames.map fun e => e.1.toList).Nodup := by decide
  rw [names_iff, clockOfName?, Option.map_eq_some_iff]
  constructor
  · rintro ⟨⟨name, c⟩, hfind, rfl⟩
    exact ⟨name, List.mem_of_find?_eq_some hfind, by simpa using List.find?_some hfind⟩
  · rintro ⟨name, hmem, hname⟩
    cases hfind : clockNames.find? fun e => e.1.toList == text.toList.map Char.toLower with
    | none =>
      have hnone := List.find?_eq_none.1 hfind (name, c) hmem
      exact absurd (beq_iff_eq.2 hname) hnone
    | some e =>
      have he : e.1.toList = text.toList.map Char.toLower := by simpa using List.find?_some hfind
      have heq := List.inj_on_of_nodup_map hdistinct (List.mem_of_find?_eq_some hfind) hmem
        (he.trans hname.symm)
      exact ⟨e, rfl, by rw [heq]⟩

/-- No name is a numeral: there is a letter in each. -/
theorem Names.not_denotes {text : String} {c : Clock} (h : Names text c) {n : Nat} :
    ¬ Denotes 10 text.toList n := by
  intro hn
  have hletter : ∀ e ∈ clockNames, e.1.toList.any (58 ≤ ·.toNat) := by decide
  obtain ⟨name, hmem, hname⟩ := names_iff.1 h
  obtain ⟨x, hx, hlarge⟩ := List.any_eq_true.1 (hletter _ hmem)
  rw [hname] at hx
  obtain ⟨y, hy, rfl⟩ := List.mem_map.1 hx
  exact absurd (hn.toNat_toLower_lt hy) (Nat.not_lt_of_le (of_decide_eq_true hlarge))

theorem number_le (c : Clock) : c.number.toNat ≤ 14 := by
  cases c <;> decide

theorem ofNumber?_eq_none {n : Nat} : Clock.ofNumber? n = none ↔ 14 < n := by
  have hknown : ∀ n ≤ 14, Clock.ofNumber? n ≠ none := by decide
  constructor
  · intro h
    exact Nat.lt_of_not_le fun hle => hknown n hle h
  · intro hlt
    refine List.find?_eq_none.2 fun c _ hc => ?_
    rw [← beq_iff_eq.1 hc] at hlt
    exact absurd (number_le c) (Nat.not_le_of_lt hlt)

theorem readClock_of_denotes {text : String} {n : Nat} (h : Denotes 10 text.toList n)
    (hn : n < 2 ^ 32) :
    readClock text = (Clock.ofNumber? n).elim (.error (.unknownNumber n)) .ok := by
  have hread : Numeral.readNat 10 0xFFFFFFFF text.toList = .ok n :=
    (Numeral.readNat_eq_ok (by decide)).2 ⟨h, Nat.le_of_lt_succ hn⟩
  rw [readClock, hread]
  dsimp only
  cases Clock.ofNumber? n <;> rfl

theorem readClock_of_large {text : String} (h : ∀ n, Denotes 10 text.toList n → 2 ^ 32 ≤ n) :
    readClock text = (clockOfName? text).elim (.error (.unknownName text)) .ok := by
  cases hread : Numeral.readNat 10 0xFFFFFFFF text.toList with
  | ok n =>
    obtain ⟨hn, hle⟩ := (Numeral.readNat_eq_ok (by decide)).1 hread
    exact absurd (h n hn) (Nat.not_le_of_lt (Nat.lt_succ_of_le hle))
  | error e =>
    rw [readClock, hread]
    cases clockOfName? text <;> rfl

/-- Each text is read in one of four ways. -/
theorem readClock_eq_iff {text : String} {r : Except ClockError Clock} :
    readClock text = r ↔ ClockReading text r := by
  constructor
  · rintro rfl
    by_cases h : ∃ n, Denotes 10 text.toList n ∧ n < 2 ^ 32
    · obtain ⟨n, hn, hlt⟩ := h
      rw [readClock_of_denotes hn hlt]
      cases hc : Clock.ofNumber? n with
      | none => exact .unknownNumber hn (ofNumber?_eq_none.1 hc) hlt
      | some c =>
        obtain rfl := Clock.number_of_ofNumber? hc
        exact .number hn
    · have hlarge (n : Nat) (hn : Denotes 10 text.toList n) : 2 ^ 32 ≤ n :=
        Nat.le_of_not_lt fun hlt => h ⟨n, hn, hlt⟩
      rw [readClock_of_large hlarge]
      cases hc : clockOfName? text with
      | none =>
        refine .unknownName hlarge fun c hnames => ?_
        rw [clockOfName?_eq_some.2 hnames] at hc
        cases hc
      | some c => exact .name (clockOfName?_eq_some.1 hc)
  · intro h
    cases h with
    | number h =>
      rw [readClock_of_denotes h (UInt32.toNat_lt _), Clock.ofNumber?_number]
      rfl
    | name h =>
      rw [readClock_of_large fun n hn => absurd hn h.not_denotes, clockOfName?_eq_some.2 h]
      rfl
    | unknownNumber h hgt hlt =>
      rw [readClock_of_denotes h hlt, ofNumber?_eq_none.2 hgt]
      rfl
    | unknownName hlarge hno =>
      have hnone : clockOfName? text = none :=
        Option.eq_none_iff_forall_ne_some.2 fun c hc => hno c (clockOfName?_eq_some.1 hc)
      rw [readClock_of_large hlarge, hnone]
      rfl

/-- A text is read as a clock by its number or by its name, and as no other clock then; numerals and
names of one clock are read as the same. A numeral of 32 bits that belongs to no clock is an unknown
number, one that is larger is no more than an unknown name, as is every other text. -/
theorem reads_exactly_clocks (text : String) :
    (∀ r, readClock text = r ↔ ClockReading text r) ∧
    (∀ c c', ClockReading text (.ok c) → ClockReading text (.ok c') → c = c') ∧
    (∀ n, Denotes 10 text.toList n →
      (n ≤ 14 ↔ ∃ c, readClock text = .ok c ∧ c.number.toNat = n) ∧
      (2 ^ 32 ≤ n → readClock text = .error (.unknownName text)) ∧
      ∀ name c, Names name c → (readClock text = readClock name ↔ c.number.toNat = n)) := by
  have hsame {c : Clock} {n : Nat} (hn : Denotes 10 text.toList n)
      (hc : readClock text = .ok c) : c.number.toNat = n := by
    cases readClock_eq_iff.1 hc with
    | number h => exact h.unique (by decide) hn
    | name h => exact absurd hn h.not_denotes
  refine ⟨fun _ => readClock_eq_iff, fun c c' h h' => ?_, fun n hn => ⟨⟨fun hle => ?_, ?_⟩,
    fun hlarge => ?_, fun name c hnames => ?_⟩⟩
  · exact Except.ok.inj ((readClock_eq_iff.2 h).symm.trans (readClock_eq_iff.2 h'))
  · cases hc : Clock.ofNumber? n with
    | none => exact absurd (ofNumber?_eq_none.1 hc) (Nat.not_lt_of_le hle)
    | some c =>
      obtain rfl := Clock.number_of_ofNumber? hc
      exact ⟨c, readClock_eq_iff.2 (.number hn), rfl⟩
  · rintro ⟨c, -, rfl⟩
    exact number_le c
  · refine readClock_eq_iff.2 (.unknownName (fun m hm => ?_) fun c h => h.not_denotes hn)
    rwa [hm.unique (by decide) hn]
  · rw [readClock_eq_iff.2 (.name hnames)]
    refine ⟨hsame hn, ?_⟩
    rintro rfl
    exact readClock_eq_iff.2 (.number hn)

/-- The last clock by its number, with a sign and zeros, and by its name; a numeral of 33 bits. -/
theorem reads_exactly_clocks_pixelBvb :
    Denotes 10 "+0014".toList 14 ∧ Names "Pixel-BVB" .pixelBvb ∧
      readClock "+0014" = readClock "Pixel-BVB" ∧
      (∃ c, readClock "+0014" = .ok c ∧ c.number.toNat = 14) ∧
      (∀ c, ClockReading "+0014" (.ok c) → c = .pixelBvb) ∧
      readClock "4294967296" = .error (.unknownName "4294967296") := by
  have hdenotes {cs : List Char} {n : Nat} (h : Numeral.readNat 10 n cs = .ok n) :
      Denotes 10 cs n := ((Numeral.readNat_eq_ok (by decide)).1 h).1
  have hlast : Denotes 10 "+0014".toList 14 := hdenotes rfl
  have hnames : Names "Pixel-BVB" .pixelBvb := names_iff.2 ⟨"pixel-bvb", by decide, rfl⟩
  obtain ⟨-, hunique, hnumeral⟩ := reads_exactly_clocks "+0014"
  obtain ⟨hknown, -, hnamed⟩ := hnumeral 14 hlast
  obtain ⟨-, -, hlarge⟩ := reads_exactly_clocks "4294967296"
  exact ⟨hlast, hnames, (hnamed _ _ hnames).2 rfl, hknown.1 (Nat.le_refl 14),
    fun c hc => hunique c _ hc (.number hlast),
    (hlarge (2 ^ 32) (hdenotes rfl)).2.1 (Nat.le_refl _)⟩

end Bcm2835.CommandLine
