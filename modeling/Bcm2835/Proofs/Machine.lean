import Bcm2835.CommandLine.Commands
import Bcm2835.Proofs.Board
import Bcm2835.Proofs.Mapping

/-! What the actions of a command do to the machine. A program on registers does to the board of the
machine what it does to a board (`Machine.record_onBoard`), and mapping the peripherals, which comes
first in most commands, ends with a result, whatever the limit, and without a look at the board
(`mapPeripherals_ends`). -/

namespace Bcm2835

open Program

variable {I J : Interface} {α β : Type}

/-! ## Programs carried out by other programs -/

/-- If each request is carried out by a program that hands on its answer, then what comes out in the
end can come out of the program that asks. -/
theorem Tree.Runs.of_lower {g : (r : I.Request) → Tree J (I.Answer r)}
    (hg : ∀ r T s, (g r).Runs T s → ∃ a, s = .ended (.ok a)) {t : Tree I α} {T : Transcript J}
    {s : Stop α} (h : (t.lower g).Runs T s) : ∃ U, t.Runs U s := by
  induction t generalizing T with
  | halt o =>
    obtain ⟨-, rfl⟩ := runs_halt.1 h
    exact ⟨[], .halt o⟩
  | tick next ih =>
    rcases runs_tick.1 h with ⟨-, rfl⟩ | ⟨V, -, hV⟩
    · exact ⟨[], .waiting _⟩
    · obtain ⟨U, hU⟩ := ih hV
      exact ⟨_, hU.tick⟩
  | report n next ih =>
    obtain ⟨V, -, hV⟩ := runs_report.1 h
    obtain ⟨U, hU⟩ := ih hV
    exact ⟨_, hU.report n⟩
  | request r next ih =>
    rcases runs_bind.1 h with ⟨-, V, a, -, -, hV⟩ | ⟨s₀, hT, hs⟩
    · obtain ⟨U, hU⟩ := ih a hV
      exact ⟨_, hU.request a⟩
    · obtain ⟨a, rfl⟩ := hg r T s₀ hT
      cases hs

/-- The program has no loop that a limit could cut short. -/
def Program.Straight (p : Program I α) : Prop := ∀ limit, p limit = p 0

namespace Program.Straight

variable {p : Program I α} {f : α → Program I β}

theorem bind (hp : p.Straight) (hf : ∀ a, (f a).Straight) : (p >>= f).Straight := by
  intro limit
  rw [bind_apply, bind_apply, hp limit, funext fun a => hf a limit]

theorem attempt (hp : p.Straight) : p.attempt.Straight := fun limit =>
  congrArg Tree.attempt (hp limit)

theorem lower {g : (r : I.Request) → Program J (I.Answer r)} (hg : ∀ r, (g r).Straight)
    (hp : p.Straight) : (p.lower g).Straight := by
  intro limit
  rw [Program.lower, Program.lower, hp limit, funext fun r => hg r limit]

end Program.Straight

/-! ## The board of the machine -/

namespace Machine

/-- An access to the board, as one of the machine. -/
def boardAccess (a : Access Board) : Access Machine := ⟨.board a.request, a.answer⟩

/-- What happens on the board, as something that happens on the machine. -/
def boardEntry : Entry Board → Entry Machine
  | .access a => .access (boardAccess a)
  | .tick => .tick
  | .report n => .report n

/-- The access to the board that an access of the machine is, if it is one. -/
def board? : Access Machine → Option (Access Board)
  | ⟨.board r, a⟩ => some ⟨r, a⟩
  | ⟨.readFile _, _⟩ | ⟨.openDevice _, _⟩ | ⟨.mapDevice .., _⟩ | ⟨.print _, _⟩ => none

theorem accesses_map_boardEntry (T : Transcript Board) :
    Transcript.accesses (T.map boardEntry) = T.accesses.map boardAccess := by
  induction T with
  | nil => rfl
  | cons e T ih =>
    cases e with
    | access a => exact congrArg (boardAccess a :: ·) ih
    | tick | report => exact ih

/-- The board of the machine, once the machine was accessed like this. -/
def boardOf (hw : Behaviour Machine) (past : List (Access Machine)) : Behaviour Board :=
  fun A r => hw (past ++ A.map boardAccess) (.board r)

/-- A run on the board of the machine. -/
def recordOf (R : Record Board α) : Record Machine α := ⟨R.transcript.map boardEntry, R.outcome⟩

variable (hw : Behaviour Machine) (past : List (Access Machine)) (limit : Nat)

theorem record_lower (t : Tree Board α) (A : List (Access Board)) :
    (t.lower fun r => Program.request (I := Machine) (.board r) limit).record hw
      (past ++ A.map boardAccess) = recordOf (t.record (boardOf hw past) A) := by
  induction t generalizing A with
  | halt o => rfl
  | tick next ih => exact congrArg (Record.after .tick) (ih A)
  | report n next ih => exact congrArg (Record.after (.report n)) (ih A)
  | request r next ih =>
    have hnext := ih (boardOf hw past A r) (A ++ [⟨r, boardOf hw past A r⟩])
    rw [List.map_append, ← List.append_assoc] at hnext
    exact congrArg (Record.after _) hnext

/-- A program on registers does to the board of the machine what it does to a board. -/
theorem record_onBoard (p : Driver α) :
    (onBoard p limit).record hw past = recordOf ((p limit).record (boardOf hw past) []) := by
  have hlower := record_lower hw past limit (p limit) []
  rwa [List.map_nil, List.append_nil] at hlower

end Machine

/-! ## Actions -/

namespace CommandLine

namespace Action

variable {hw : Behaviour Machine} {past : List (Access Machine)} {limit : Nat}
  {T : Transcript Machine}

theorem record_run (wrap : Error → Failure) (p : Program Machine α) :
    (run wrap p limit).record hw past = ⟨((p limit).record hw past).transcript,
      ((p limit).record hw past).outcome.wrapped wrap⟩ :=
  record_wrapping wrap p

theorem record_onBoard (wrap : Error → Failure) (p : Driver α) :
    (onBoard wrap p limit).record hw past =
      let R := (p limit).record (Machine.boardOf hw past) []
      ⟨R.transcript.map Machine.boardEntry, R.outcome.wrapped wrap⟩ := by
  rw [onBoard, record_run, Machine.record_onBoard]
  rfl

variable {x : Action α} {f : α → Action β}

/-- Behind an action that goes on, the machine goes on answering. -/
theorem record_bind_of_ok {a : α} (h : (x limit).record hw past = ⟨T, .ok (.ok a)⟩) :
    ((x >>= f) limit).record hw past = ((f a limit).record hw (past ++ T.accesses)).behind T :=
  Tree.record_bind_of_ok h

theorem record_bind_of_error {e : Failure} (h : (x limit).record hw past = ⟨T, .ok (.error e)⟩) :
    ((x >>= f) limit).record hw past = ⟨T, .ok (.error e)⟩ :=
  (Tree.record_bind_of_ok h).trans (congrArg (Record.mk · _) (List.append_nil T))

end Action

/-! ## Mapping the peripherals -/

/-- Asks for no register. -/
def OffBoard (A : List (Access Machine)) : Prop := ∀ a ∈ A, Machine.board? a = none

theorem additive_offBoard : Additive OffBoard := additive_forall fun a => Machine.board? a = none

theorem onDevice_leaves (device : String) (r : Host.Request) :
    (Machine.onDevice device r).Leaves OffBoard := by
  have hask (r : Machine.Request) (hr : ∀ a, Machine.board? ⟨r, a⟩ = none) :
      (Program.request (I := Machine) r).Leaves OffBoard :=
    leaves_request (I := Machine) r fun a => List.forall_mem_singleton.2 (hr a)
  cases r with
  | readFile path => exact hask _ fun _ => rfl
  | mapMemory base length =>
    apply additive_offBoard.bind (hask _ fun _ => rfl)
    intro opened
    cases opened with
    | error cause => exact additive_offBoard.pure _
    | ok =>
      apply additive_offBoard.bind (hask _ fun _ => rfl)
      intro mapped
      match mapped with
      | .error cause | .ok 0 | .ok (addr + 1) => exact additive_offBoard.pure _

/-- A host on which nothing is there. -/
def bareHost : Behaviour Host
  | _, .readFile _ => (.error .notFound : Except FileError (List UInt8))
  | _, .mapMemory .. => (.error .timeout : Except Error Nat)

theorem onHost_leaves (device : String) (p : Program Host α) :
    (Machine.onHost device p).Leaves OffBoard :=
  additive_offBoard.lower (q := fun _ => True) bareHost (fun r _ => onDevice_leaves device r)
    fun _ _ _ _ _ _ => trivial

theorem runs_onDevice {device : String} {r : Host.Request} {limit : Nat} {T : Transcript Machine}
    {s : Stop (Host.Answer r)} (h : (Machine.onDevice device r limit).Runs T s) :
    ∃ a, s = .ended (.ok a) := by
  cases r with
  | readFile path =>
    obtain ⟨content, U, -, hU⟩ := Tree.runs_request.1 h
    exact ⟨content, (Tree.runs_halt.1 hU).2⟩
  | mapMemory base length =>
    obtain ⟨opened, U, -, hU⟩ := Tree.runs_request.1 h
    cases opened with
    | error cause => exact ⟨_, (Tree.runs_halt.1 hU).2⟩
    | ok =>
      obtain ⟨mapped, V, -, hV⟩ := Tree.runs_request.1 hU
      match mapped with
      | .error cause | .ok 0 | .ok (addr + 1) => exact ⟨_, (Tree.runs_halt.1 hV).2⟩

/-- What the command asks the host for, and the failure if it does not get it. -/
def mapRequest (o : MapOptions) : Program Machine Unit :=
  Machine.onHost o.device ((Mapper.mk none).map o.config) >>= fun r =>
    ofExcept r.1 >>= fun _ => pure ()

theorem mapPeripherals_eq (o : MapOptions) :
    mapPeripherals o =
      Action.run (.during s!"failed to map peripherals through {o.device}") (mapRequest o) := rfl

variable {o : MapOptions} {limit : Nat} {T : Transcript Machine}

/-- A mapper that is new gets an answer to its request, whatever the host does. -/
theorem runs_map {s : Stop (Except Error Mapping × Mapper)}
    (h : (Machine.onHost o.device ((Mapper.mk none).map o.config) limit).Runs T s) :
    ∃ r, s = .ended (.ok r) := by
  obtain ⟨U, hU⟩ := Tree.Runs.of_lower (fun _ _ _ => runs_onDevice) h
  rw [Mapper.map_eq_getOrTryInit] at hU
  obtain ⟨-, -, k, answer, -, -, rfl, -⟩ := Mapper.cell_lawful.runs_of_vacant rfl hU
  exact ⟨_, rfl⟩

theorem runs_mapRequest {s : Stop Unit} (h : (mapRequest o limit).Runs T s) :
    ∃ r, s.result? = some r := by
  rcases Tree.runs_bind.1 h with ⟨U, V, ⟨result, m⟩, -, -, hV⟩ | ⟨s₀, hT, hs⟩
  · cases result with
    | ok mapping =>
      obtain ⟨-, rfl⟩ := Tree.runs_halt.1 hV
      exact ⟨_, rfl⟩
    | error e =>
      obtain ⟨-, rfl⟩ := Tree.runs_halt.1 hV
      exact ⟨_, rfl⟩
  · obtain ⟨r, rfl⟩ := runs_map hT
    cases hs

theorem mapRequest_leaves (o : MapOptions) : (mapRequest o).Leaves OffBoard := by
  apply additive_offBoard.bind (onHost_leaves _ _)
  intro r
  refine additive_offBoard.bind ?_ fun _ => additive_offBoard.pure ()
  cases r.1 with
  | ok mapping => exact additive_offBoard.pure _
  | error e => exact additive_offBoard.ofOutcome (.error e)

theorem straight_onDevice (device : String) (r : Host.Request) :
    (Machine.onDevice device r).Straight := by
  cases r with
  | readFile path => exact fun _ => rfl
  | mapMemory base length =>
    refine Straight.bind (fun _ => rfl) fun opened => ?_
    cases opened with
    | error cause => exact fun _ => rfl
    | ok =>
      refine Straight.bind (fun _ => rfl) fun mapped => ?_
      match mapped with
      | .error cause | .ok 0 | .ok (addr + 1) => exact fun _ => rfl

theorem straight_establish (c : MapConfig) : (Mapper.establish c).Straight := by
  intro limit
  rw [establish_apply, establish_apply]
  cases hbase : c.base with
  | some base => simp only [MapConfig.resolveBase, hbase, pure_apply]
  | none => simp only [MapConfig.resolveBase, hbase, peripheralBase_apply]

theorem straight_mapRequest (o : MapOptions) : (mapRequest o).Straight := by
  have hmap : ((Mapper.mk none).map o.config).Straight := by
    refine (straight_establish o.config).attempt.bind fun answer => ?_
    cases answer with
    | ok mapping => exact fun _ => rfl
    | error e => exact fun _ => rfl
  refine (hmap.lower (straight_onDevice o.device)).bind fun answer => ?_
  obtain ⟨result, m⟩ := answer
  cases result with
  | ok mapping => exact fun _ => rfl
  | error e => exact fun _ => rfl

/-- Mapping the peripherals ends with a result, which is the same for each limit, and asks for no
register. -/
theorem mapPeripherals_ends (o : MapOptions) (hw : Behaviour Machine) :
    ∃ (T : Transcript Machine) (r : Except Failure Unit),
      (∀ limit, (mapPeripherals o).record hw limit = ⟨T, .ok r⟩) ∧ OffBoard T.accesses := by
  have hruns := Tree.runs_record hw (mapRequest o 0) []
  obtain ⟨answer, hanswer⟩ := runs_mapRequest hruns
  obtain ⟨r, hr⟩ := Outcome.exists_wrapped
    (Failure.during s!"failed to map peripherals through {o.device}") hanswer
  refine ⟨((mapRequest o).record hw 0).transcript, r, fun limit => ?_, mapRequest_leaves o hruns⟩
  rw [mapPeripherals_eq, record, Action.record_run, straight_mapRequest o limit, hr]
  rfl

end CommandLine

end Bcm2835
