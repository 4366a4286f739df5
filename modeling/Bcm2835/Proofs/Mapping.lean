import Bcm2835.Mapper
import Bcm2835.Proofs.Behaviour
import Bcm2835.Proofs.Waiting

/-! The peripheral block over any sequence of requests to map it and questions for the mapping. The
mapping is kept in a cell that is filled once (`OnceCell`); of the cell only its laws are used, and
the mapper is one that has them (`Mapper.cell`). As long as nothing was mapped each request looks
the base up and maps the block once, and the first success is the answer to everything behind it
(`mapped_at_most_once`). -/

namespace Bcm2835

open Program

/-- A cell for one mapping. -/
structure OnceCell (κ : Type) where
  empty : κ
  get : κ → Option Mapping
  /-- The mapping in the cell, or one that the program makes. -/
  getOrTryInit : κ → Program Host Mapping → Program Host (Except Error Mapping × κ)

/-- The program runs only while the cell is empty, and what it makes is kept only if it succeeds. -/
structure OnceCell.Lawful {κ : Type} (cell : OnceCell κ) : Prop where
  get_empty : cell.get cell.empty = none
  of_full {k : κ} {mapping : Mapping} (init : Program Host Mapping) :
    cell.get k = some mapping → cell.getOrTryInit k init = pure (.ok mapping, k)
  of_vacant {k : κ} (init : Program Host Mapping) : cell.get k = none →
    ∃ filled : Mapping → κ, (∀ mapping, cell.get (filled mapping) = some mapping) ∧
      cell.getOrTryInit k init = do
        match ← init.attempt with
        | .ok mapping => return (.ok mapping, filled mapping)
        | .error e => return (.error e, k)

namespace Mapper

/-- The mapper as a cell. -/
def cell : OnceCell Mapper where
  empty := {}
  get := kept
  getOrTryInit m init :=
    match m.kept with
    | some mapping => pure (.ok mapping, m)
    | none => do
      match ← init.attempt with
      | .ok mapping => return (.ok mapping, ⟨some mapping⟩)
      | .error e => return (.error e, m)

theorem map_eq_getOrTryInit (m : Mapper) (c : MapConfig) :
    m.map c = cell.getOrTryInit m (establish c) := rfl

theorem cell_lawful : cell.Lawful where
  get_empty := rfl
  of_full {m mapping} init h := by
    have hm : m.kept = some mapping := h
    simp only [cell, hm]
  of_vacant {m} init h := by
    have hm : m.kept = none := h
    refine ⟨fun mapping => ⟨some mapping⟩, fun _ => rfl, ?_⟩
    simp only [cell, hm]

end Mapper

/-! ## One attempt to map the block -/

/-- Bases and lengths with which memory was mapped. -/
def mapRequests (A : List (Access Host)) : List (UInt32 × Nat) :=
  A.filterMap fun a =>
    match a.request with
    | .mapMemory base length => some (base, length)
    | .readFile _ => none

theorem mapRequests_append (A B : List (Access Host)) :
    mapRequests (A ++ B) = mapRequests A ++ mapRequests B := List.filterMap_append ..

/-- What the system answers to the one request to map the block, with what is reported on it. -/
def mappingTranscript (base : UInt32) (answer : Except Error Nat) : Transcript Host :=
  [.report (.mapping Layout.blockSize.toNat base),
    .access ⟨.mapMemory base Layout.blockSize.toNat, answer⟩] ++
  match answer with
  | .ok addr => [.report (.mapped addr)]
  | .error _ => []

theorem mapRequests_mappingTranscript (base : UInt32) (answer : Except Error Nat) :
    mapRequests (mappingTranscript base answer).accesses =
      [(base, Layout.blockSize.toNat)] := by
  cases answer <;> rfl

variable {limit : Nat} {T : Transcript Host} {c : MapConfig}

theorem validate_regions : Layout.validate Layout.regions = .ok () := by decide

theorem readFrom_apply (path : String) :
    SocRanges.readFrom path limit = .request (I := Host) (.readFile path) fun content =>
      .halt (.ok (content >>= fun bytes =>
        SocRanges.ofRecord <$> SocRanges.fill SocRanges.recordLength bytes)) := by
  refine congrArg (Tree.request _) (funext fun content => congrArg (Tree.halt ∘ Outcome.ok) ?_)
  exact congrArg (content >>= ·) (funext fun bytes => bind_pure_comp ..)

theorem peripheralBase_apply (path : String) (fallback : UInt32) :
    SocRanges.peripheralBase path fallback limit =
      .request (I := Host) (.readFile path) fun content =>
        match content >>= fun bytes =>
          SocRanges.ofRecord <$> SocRanges.fill SocRanges.recordLength bytes with
        | .ok ranges =>
          if ranges.matchesBus then .halt (.ok ranges.cpu)
          else .report (.foreignBus path ranges.bus Layout.busBase) (.halt (.ok ranges.cpu))
        | .error cause => .report (.noRecord path cause fallback) (.halt (.ok fallback)) := by
  rw [SocRanges.peripheralBase, bind_apply, readFrom_apply]
  refine congrArg (Tree.request _) (funext fun content => ?_)
  dsimp only [Tree.bind]
  generalize (content >>= fun bytes =>
    SocRanges.ofRecord <$> SocRanges.fill SocRanges.recordLength bytes) = record
  cases record with
  | error cause => rfl
  | ok ranges =>
    dsimp only
    cases ranges.matchesBus
    · rfl
    · rfl

/-- The lookup of the base always finds one, and maps nothing. -/
theorem runs_resolveBase {s : Stop UInt32} (h : (c.resolveBase limit).Runs T s) :
    (∃ base, s = .ended (.ok base)) ∧ mapRequests T.accesses = [] := by
  cases hb : c.base with
  | some base =>
    simp only [MapConfig.resolveBase, hb] at h
    obtain ⟨rfl, rfl⟩ := Tree.runs_halt.1 h
    exact ⟨⟨base, rfl⟩, rfl⟩
  | none =>
    simp only [MapConfig.resolveBase, hb, peripheralBase_apply] at h
    obtain ⟨content, U, rfl, hU⟩ := Tree.runs_request.1 h
    split at hU
    · split at hU
      · obtain ⟨rfl, rfl⟩ := Tree.runs_halt.1 hU
        exact ⟨⟨_, rfl⟩, rfl⟩
      · obtain ⟨V, rfl, hV⟩ := Tree.runs_report.1 hU
        obtain ⟨rfl, rfl⟩ := Tree.runs_halt.1 hV
        exact ⟨⟨_, rfl⟩, rfl⟩
    · obtain ⟨V, rfl, hV⟩ := Tree.runs_report.1 hU
      obtain ⟨rfl, rfl⟩ := Tree.runs_halt.1 hV
      exact ⟨⟨_, rfl⟩, rfl⟩

theorem establish_apply :
    Mapper.establish c limit = (c.resolveBase limit).bind fun base =>
      .report (.mapping Layout.blockSize.toNat base)
        (.request (I := Host) (.mapMemory base Layout.blockSize.toNat) fun
          | .ok addr => .report (.mapped addr) (.halt (.ok ⟨addr⟩))
          | .error e => .halt (.error e)) := by
  rw [Mapper.establish, validate_regions]
  refine congrArg (Tree.bind (c.resolveBase limit)) (funext fun base => ?_)
  refine congrArg (Tree.report _) (congrArg (Tree.request _) (funext fun answer => ?_))
  cases answer <;> rfl

/-- An attempt looks the base up and then asks once for the whole block. It ends as the system
answers. -/
theorem runs_establish {s : Stop Mapping} (h : (Mapper.establish c limit).Runs T s) :
    ∃ lookup base, ∃ answer : Except Error Nat,
      (c.resolveBase limit).Runs lookup (.ended (.ok base)) ∧
      T = lookup ++ mappingTranscript base answer ∧
      s.caught = .ended (.ok (answer.map Mapping.mk)) := by
  rw [establish_apply] at h
  rcases Tree.runs_bind.1 h with ⟨lookup, V, base, rfl, hU, hV⟩ | ⟨s₀, hT, hs⟩
  · obtain ⟨W, rfl, hW⟩ := Tree.runs_report.1 hV
    obtain ⟨answer, X, rfl, hX⟩ := Tree.runs_request.1 hW
    refine ⟨lookup, base, answer, hU, ?_⟩
    cases answer with
    | ok addr =>
      obtain ⟨Y, rfl, hY⟩ := Tree.runs_report.1 hX
      obtain ⟨rfl, rfl⟩ := Tree.runs_halt.1 hY
      exact ⟨rfl, rfl⟩
    | error e =>
      obtain ⟨rfl, rfl⟩ := Tree.runs_halt.1 hX
      exact ⟨rfl, rfl⟩
  · obtain ⟨⟨base, rfl⟩, -⟩ := runs_resolveBase hT
    cases hs

/-! ## Many requests in a row -/

/-- Something that was asked of a cell, and what came of it. -/
inductive Turn where
  | map (c : MapConfig) (transcript : Transcript Host) (result : Except Error Mapping)
  | get (result : Option Mapping)

def Turn.made? : Turn → Option Mapping
  | map _ _ (.ok mapping) => some mapping
  | map _ _ (.error _) | get _ => none

def firstMapping (turns : List Turn) : Option Mapping := turns.findSome? Turn.made?

/-- Turns in a row, each on the cell as the turn before it left it. The system may answer each
request in every way. -/
inductive OnceCell.History {κ : Type} (cell : OnceCell κ) : κ → List Turn → κ → Prop
  | nil (k : κ) : History cell k [] k
  | map {k k' k'' : κ} {c : MapConfig} {limit : Nat} {T : Transcript Host}
    {result : Except Error Mapping} {turns : List Turn} :
    (cell.getOrTryInit k (Mapper.establish c) limit).Runs T (.ended (.ok (result, k'))) →
    History cell k' turns k'' → History cell k (.map c T result :: turns) k''
  | get {k k' : κ} {turns : List Turn} :
    History cell k turns k' → History cell k (.get (cell.get k) :: turns) k'

namespace OnceCell

variable {κ : Type} {cell : OnceCell κ} {k k' : κ} {turns : List Turn}

namespace Lawful

theorem runs_of_full (h : cell.Lawful) {mapping : Mapping} (hk : cell.get k = some mapping)
    {s : Stop (Except Error Mapping × κ)}
    (hr : (cell.getOrTryInit k (Mapper.establish c) limit).Runs T s) :
    T = [] ∧ s = .ended (.ok (.ok mapping, k)) := by
  rw [h.of_full _ hk] at hr
  exact Tree.runs_halt.1 hr

theorem runs_of_vacant (h : cell.Lawful) (hk : cell.get k = none)
    {s : Stop (Except Error Mapping × κ)}
    (hr : (cell.getOrTryInit k (Mapper.establish c) limit).Runs T s) :
    ∃ lookup base k', ∃ answer : Except Error Nat,
      (c.resolveBase limit).Runs lookup (.ended (.ok base)) ∧
      T = lookup ++ mappingTranscript base answer ∧
      s = .ended (.ok (answer.map Mapping.mk, k')) ∧
      cell.get k' = (answer.map Mapping.mk).toOption := by
  obtain ⟨filled, hfilled, hinit⟩ := h.of_vacant (Mapper.establish c) hk
  rw [hinit, bind_apply] at hr
  have hattempt {U s₁} (hU : ((Mapper.establish c).attempt limit).Runs U s₁) :
      ∃ lookup base, ∃ answer : Except Error Nat,
        (c.resolveBase limit).Runs lookup (.ended (.ok base)) ∧
        U = lookup ++ mappingTranscript base answer ∧
        s₁ = .ended (.ok (answer.map Mapping.mk)) := by
    obtain ⟨s₀, hr, rfl⟩ := Tree.Runs.of_attempt hU
    exact runs_establish hr
  rw [Tree.runs_bind] at hr
  rcases hr with ⟨U, V, r, rfl, hU, hV⟩ | ⟨s₁, hT, hs⟩
  · obtain ⟨lookup, base, answer, hlookup, rfl, hanswer⟩ := hattempt hU
    cases hanswer
    cases answer with
    | ok addr =>
      obtain ⟨rfl, rfl⟩ := Tree.runs_halt.1 hV
      exact ⟨lookup, base, _, .ok addr, hlookup, List.append_nil _, rfl, hfilled _⟩
    | error e =>
      obtain ⟨rfl, rfl⟩ := Tree.runs_halt.1 hV
      exact ⟨lookup, base, _, .error e, hlookup, List.append_nil _, rfl, hk⟩
  · obtain ⟨-, -, answer, -, -, rfl⟩ := hattempt hT
    cases hs

end Lawful

theorem History.of_append {before after : List Turn}
    (h : cell.History k (before ++ after) k') :
    ∃ m, cell.History k before m ∧ cell.History m after k' := by
  induction before generalizing k with
  | nil => exact ⟨k, .nil k, h⟩
  | cons turn before ih =>
    cases h with
    | map hr hrest =>
      obtain ⟨m, hm, hafter⟩ := ih hrest
      exact ⟨m, .map hr hm, hafter⟩
    | get hrest =>
      obtain ⟨m, hm, hafter⟩ := ih hrest
      exact ⟨m, .get hm, hafter⟩

/-- The cell holds what it held in the beginning, or else the first mapping made since. -/
theorem History.get_eq (h : cell.History k turns k') (hl : cell.Lawful) :
    cell.get k' = (cell.get k).or (firstMapping turns) := by
  induction h with
  | nil k => exact (Option.or_none).symm
  | get _ ih => exact ih
  | @map k k' k'' c limit T result turns hr _ ih =>
    rw [ih]
    cases hk : cell.get k with
    | some mapping =>
      obtain ⟨-, hs⟩ := hl.runs_of_full hk hr
      cases hs
      rw [hk]
      rfl
    | none =>
      obtain ⟨-, -, m, answer, -, -, hs, hm⟩ := hl.runs_of_vacant hk hr
      cases hs
      rw [hm]
      cases answer <;> rfl

end OnceCell

/-- As long as no mapping was made, each request for one looks the base up and maps the whole block
once, and fails as the system does. The first mapping made is the answer to all requests and
questions behind it, and nothing else happens in them. -/
theorem mapped_at_most_once :
    (Mapper.cell.Lawful ∧ ∀ m c, Mapper.map m c =
      Mapper.cell.getOrTryInit m (Mapper.establish c)) ∧
    ∀ (κ : Type) (cell : OnceCell κ), cell.Lawful →
      (∀ k c limit T s, (cell.getOrTryInit k (Mapper.establish c) limit).Runs T s →
        ∃ result k', s = .ended (.ok (result, k'))) ∧
      ∀ turns k, cell.History cell.empty turns k →
        cell.get k = firstMapping turns ∧
        (∀ before c (T : Transcript Host) result after,
          turns = before ++ .map c T result :: after →
          (∀ mapping, firstMapping before = some mapping → T = [] ∧ result = .ok mapping) ∧
          (firstMapping before = none → ∃ limit lookup base, ∃ answer : Except Error Nat,
            (c.resolveBase limit).Runs lookup (.ended (.ok base)) ∧
            T = lookup ++ mappingTranscript base answer ∧
            mapRequests T.accesses = [(base, Layout.blockSize.toNat)] ∧
            result = answer.map Mapping.mk)) ∧
        ∀ before result after, turns = before ++ .get result :: after →
          result = firstMapping before := by
  refine ⟨⟨Mapper.cell_lawful, Mapper.map_eq_getOrTryInit⟩, ?_⟩
  intro κ cell hl
  have held {turns k} (h : cell.History cell.empty turns k) : cell.get k = firstMapping turns := by
    rw [h.get_eq hl, hl.get_empty, Option.none_or]
  refine ⟨?_, fun turns k hist => ⟨held hist, ?_, ?_⟩⟩
  · intro k c limit T s hr
    cases hk : cell.get k with
    | some mapping => exact ⟨_, _, (hl.runs_of_full hk hr).2⟩
    | none =>
      obtain ⟨-, -, k', answer, -, -, hs, -⟩ := hl.runs_of_vacant hk hr
      exact ⟨_, k', hs⟩
  · rintro before c T result after rfl
    obtain ⟨k₀, hbefore, hrest⟩ := hist.of_append
    have hk := held hbefore
    cases hrest with
    | map hr _ =>
      constructor
      · intro mapping hmapping
        obtain ⟨rfl, hs⟩ := hl.runs_of_full (hk.trans hmapping) hr
        cases hs
        exact ⟨rfl, rfl⟩
      · intro hnone
        obtain ⟨lookup, base, k₁, answer, hlookup, rfl, hs, -⟩ :=
          hl.runs_of_vacant (hk.trans hnone) hr
        cases hs
        refine ⟨_, lookup, base, answer, hlookup, rfl, ?_, rfl⟩
        rw [Transcript.accesses_append, mapRequests_append, (runs_resolveBase hlookup).2,
          mapRequests_mappingTranscript, List.nil_append]
  · rintro before result after rfl
    obtain ⟨k₀, hbefore, hrest⟩ := hist.of_append
    cases hrest with
    | get _ => exact held hbefore

/-- A base that is not looked up. -/
def fixedBase (base : UInt32) : MapConfig := { base := some base }

/-- A request that finds no record and cannot map the block, a question, a request that maps it, and
two more on the full mapper. -/
def retried : List Turn :=
  [.map {} [.access ⟨.readFile SocRanges.defaultPath, .error .notFound⟩,
      .report (.noRecord SocRanges.defaultPath .notFound SocRanges.legacyBase),
      .report (.mapping 0xF00000 0x20000000),
      .access ⟨.mapMemory 0x20000000 0xF00000, .error .timeout⟩] (.error .timeout),
    .get none,
    .map (fixedBase 0x3F000000) [.report (.mapping 0xF00000 0x3F000000),
      .access ⟨.mapMemory 0x3F000000 0xF00000, .ok 0x1000⟩, .report (.mapped 0x1000)]
      (.ok ⟨0x1000⟩),
    .map (fixedBase 0xFE000000) [] (.ok ⟨0x1000⟩),
    .get (some ⟨0x1000⟩)]

theorem history_retried : Mapper.cell.History {} retried ⟨some ⟨0x1000⟩⟩ := by
  rw [retried]
  apply @OnceCell.History.map Mapper _ {} {} _ _ 0
  · exact .request _ (.report _ (.report _ (.request _ (.halt _))))
  apply OnceCell.History.get
  apply @OnceCell.History.map Mapper _ {} ⟨some ⟨0x1000⟩⟩ _ _ 0
  · exact .report _ (.request _ (.report _ (.halt _)))
  apply @OnceCell.History.map Mapper _ _ ⟨some ⟨0x1000⟩⟩ _ _ 0
  · exact .halt _
  · exact .get (.nil _)

theorem mapped_at_most_once_retried :
    Mapper.cell.Lawful ∧ Mapper.cell.History Mapper.cell.empty retried ⟨some ⟨0x1000⟩⟩ ∧
      firstMapping (retried.take 2) = none ∧ firstMapping retried = some ⟨0x1000⟩ ∧
      ∃ limit lookup base, ∃ answer : Except Error Nat,
        ((fixedBase 0x3F000000).resolveBase limit).Runs lookup (.ended (.ok base)) ∧
        [.report (.mapping 0xF00000 0x3F000000),
          .access ⟨.mapMemory 0x3F000000 0xF00000, .ok 0x1000⟩, .report (.mapped 0x1000)] =
            lookup ++ mappingTranscript base answer ∧
        (.ok ⟨0x1000⟩ : Except Error Mapping) = answer.map Mapping.mk := by
  obtain ⟨⟨hl, -⟩, hcells⟩ := mapped_at_most_once
  obtain ⟨-, hturns⟩ := hcells Mapper Mapper.cell hl
  obtain ⟨hget, hmap, -⟩ := hturns _ _ history_retried
  obtain ⟨-, hvacant⟩ := hmap (retried.take 2) (fixedBase 0x3F000000) _ _ (retried.drop 3) rfl
  obtain ⟨limit, lookup, base, answer, hlookup, hT, -, hresult⟩ := hvacant rfl
  exact ⟨hl, history_retried, rfl, hget.symm, limit, lookup, base, answer, hlookup, hT, hresult⟩

end Bcm2835
