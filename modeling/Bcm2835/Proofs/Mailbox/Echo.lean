import Bcm2835.Proofs.Mailbox.Call

/-! Calls in a row on one mailbox, and the echoes that are on their way. The firmware echoes every
word once and in order (`EchoesInOrder`), but after any delay, so a call that ran out of its budget
leaves an echo behind. A later call knows an echo by its word alone: it takes the oldest one with
the word it posted (`accepted_eq`), which is its own exactly if no other is on its way
(`accepts_own_echo_iff`). -/

namespace Bcm2835

open Program Transcript

namespace Mailbox

open MailboxPort

/-- A word that was posted, with the number of words posted before it. -/
structure Post where
  number : Nat
  word : UInt32
  deriving DecidableEq, Repr

/-- How many words were posted, and those whose echo is still to come, oldest first. -/
structure Line where
  posts : Nat := 0
  pending : List Post := []
  deriving DecidableEq, Repr

namespace Line

def post (l : Line) (w : UInt32) : Line := ⟨l.posts + 1, l.pending ++ [⟨l.posts, w⟩]⟩

/-- A word that comes in is the echo of the oldest pending post if it equals that. -/
def take (l : Line) (w : UInt32) : Line :=
  if l.pending.head?.map Post.word = some w then ⟨l.posts, l.pending.tail⟩ else l

def step (l : Line) : Access MailboxPort → Line
  | ⟨.write w, _⟩ | ⟨.post w _, _⟩ => l.post w
  | ⟨.read, w⟩ => l.take w
  | _ => l

def after (l : Line) (A : List (Access MailboxPort)) : Line := A.foldl step l

variable {l : Line} {w : UInt32}

@[simp] theorem after_nil : l.after [] = l := rfl

@[simp] theorem after_fullPoll (b : Bool) (A : List (Access MailboxPort)) :
    l.after (fullPoll b :: A) = l.after A := rfl

@[simp] theorem after_emptyPoll (b : Bool) (A : List (Access MailboxPort)) :
    l.after (emptyPoll b :: A) = l.after A := rfl

@[simp] theorem after_taken (A : List (Access MailboxPort)) :
    l.after (taken w :: A) = (l.take w).after A := rfl

theorem after_append (A B : List (Access MailboxPort)) :
    l.after (A ++ B) = (l.after A).after B := List.foldl_append

@[simp] theorem after_replicate_fullPoll (n : Nat) (b : Bool) :
    l.after (List.replicate n (fullPoll b)) = l := by
  induction n with
  | zero => rfl
  | succ n ih => rw [List.replicate_succ, after_fullPoll, ih]

@[simp] theorem after_replicate_emptyPoll (n : Nat) (b : Bool) :
    l.after (List.replicate n (emptyPoll b)) = l := by
  induction n with
  | zero => rfl
  | succ n ih => rw [List.replicate_succ, after_emptyPoll, ih]

@[simp] theorem after_transmission (full : Nat) :
    l.after (transmission full w) = l.post w := by
  rw [transmission, after_append, after_replicate_fullPoll]
  rfl

@[simp] theorem after_arrival (a : Arrival) : l.after a.accesses = l.take a.word := by
  rw [Arrival.accesses, after_append, after_replicate_emptyPoll]
  rfl

@[simp] theorem posts_take : (l.take w).posts = l.posts := by
  unfold take
  split <;> rfl

theorem pending_take_subset : (l.take w).pending ⊆ l.pending := by
  unfold take
  split
  · exact fun _ => List.mem_of_mem_tail
  · exact fun _ h => h

theorem posts_after_arrivals (others : List Arrival) :
    (l.after (others.flatMap Arrival.accesses)).posts = l.posts := by
  induction others generalizing l with
  | nil => rfl
  | cons a others ih => rw [List.flatMap_cons, after_append, after_arrival, ih, posts_take]

/-- Words that come in can only take posts away. -/
theorem pending_after_arrivals_subset (others : List Arrival) :
    (l.after (others.flatMap Arrival.accesses)).pending ⊆ l.pending := by
  induction others generalizing l with
  | nil => exact fun _ h => h
  | cons a others ih =>
    rw [List.flatMap_cons, after_append, after_arrival]
    exact List.Subset.trans ih pending_take_subset

/-- Other words leave the oldest post of a word where it is. -/
theorem dropWhile_take {v : UInt32} (h : v ≠ w) :
    (l.take v).pending.dropWhile (·.word != w) = l.pending.dropWhile (·.word != w) := by
  unfold take
  split
  · next hv =>
    cases hp : l.pending with
    | nil => rfl
    | cons p rest =>
      obtain rfl : p.word = v := by simpa [hp] using hv
      simp [h]
  · rfl

/-- Behind the older posts of its word comes the new one. -/
theorem dropWhile_post :
    (l.post w).pending.dropWhile (·.word != w) =
      l.pending.dropWhile (·.word != w) ++ [⟨l.posts, w⟩] := by
  change (l.pending ++ [_]).dropWhile _ = _
  induction l.pending with
  | nil => simp
  | cons p rest ih =>
    by_cases hp : p.word = w
    · simp [hp]
    · simpa [hp] using ih

/-- The posts from the oldest one with a word on. -/
theorem dropWhile_pending (l : Line) (w : UInt32) :
    (l.pending.dropWhile (·.word != w) = [] ∧ ∀ p ∈ l.pending, p.word ≠ w) ∨
      ∃ e rest, l.pending.dropWhile (·.word != w) = e :: rest ∧ e.word = w ∧
        ∀ p ∈ e :: rest, p ∈ l.pending := by
  induction l.pending with
  | nil => exact .inl ⟨rfl, by simp⟩
  | cons p rest ih =>
    by_cases hp : p.word = w
    · exact .inr ⟨p, rest, by simp [hp], hp, fun _ h => h⟩
    · rw [List.dropWhile_cons_of_pos (by simpa using hp)]
      rcases ih with ⟨h, hr⟩ | ⟨e, r, h, he, hr⟩
      · exact .inl ⟨h, by simpa using ⟨hp, hr⟩⟩
      · exact .inr ⟨e, r, h, he, fun q hq => List.mem_cons_of_mem _ (hr q hq)⟩

theorem dropWhile_after_arrivals {others : List Arrival} (h : ∀ a ∈ others, a.word ≠ w) :
    (l.after (others.flatMap Arrival.accesses)).pending.dropWhile (·.word != w) =
      l.pending.dropWhile (·.word != w) := by
  induction others generalizing l with
  | nil => rfl
  | cons a others ih =>
    rw [List.flatMap_cons, after_append, after_arrival, ih fun b hb => h b (by simp [hb]),
      dropWhile_take (h a (by simp))]

end Line

/-- The words posted in these accesses. -/
def postedWords (A : List (Access MailboxPort)) : List UInt32 :=
  A.filterMap fun
    | ⟨.write w, _⟩ | ⟨.post w _, _⟩ => some w
    | _ => none

/-- A word that comes in is the echo of the oldest pending post, or none of the words `sent`. -/
def Line.Expects (sent : List UInt32) (l : Line) (w : UInt32) : Prop :=
  w ∈ sent → l.pending.head?.map Post.word = some w

instance Line.decidableExpects (sent : List UInt32) (l : Line) (w : UInt32) :
    Decidable (l.Expects sent w) :=
  inferInstanceAs (Decidable (_ → _))

def Line.Admits (sent : List UInt32) (l : Line) : Access MailboxPort → Prop
  | ⟨.read, w⟩ => l.Expects sent w
  | _ => True

instance (sent : List UInt32) (l : Line) : DecidablePred (l.Admits sent)
  | ⟨.read, w⟩ => Line.decidableExpects sent l w
  | ⟨.isFull, _⟩ | ⟨.isEmpty, _⟩ | ⟨.write _, _⟩ | ⟨.busAddress, _⟩ | ⟨.post .., _⟩
  | ⟨.collect _, _⟩ => .isTrue trivial

/-- From this state of the line on, the words that come in are admitted. -/
def Echoes (sent : List UInt32) : Line → List (Access MailboxPort) → Prop
  | _, [] => True
  | l, a :: A => l.Admits sent a ∧ Echoes sent (l.step a) A

instance decidableEchoes (sent : List UInt32) :
    (l : Line) → (A : List (Access MailboxPort)) → Decidable (Echoes sent l A)
  | _, [] => .isTrue trivial
  | l, a :: A =>
    have := decidableEchoes sent (l.step a) A
    inferInstanceAs (Decidable (l.Admits sent a ∧ Echoes sent (l.step a) A))

/-- The firmware echoes every word that is posted, once and in order; what else comes in differs
from all words that are posted. -/
def EchoesInOrder (A : List (Access MailboxPort)) : Prop := Echoes (postedWords A) {} A

instance : DecidablePred EchoesInOrder := fun A => inferInstanceAs (Decidable (Echoes _ _ A))

theorem echoes_append {sent : List UInt32} {l : Line} {A B : List (Access MailboxPort)} :
    Echoes sent l (A ++ B) ↔ Echoes sent l A ∧ Echoes sent (l.after A) B := by
  induction A generalizing l with
  | nil => exact (and_iff_right trivial).symm
  | cons a A ih => exact (and_congr_right fun _ => ih).trans and_assoc.symm

/-- A call that was made, with one of its runs. -/
structure Attempt where
  budget : Budget
  channel : Channel
  addr : UInt32
  limit : Nat
  transcript : Transcript MailboxPort
  outcome : Outcome Unit
  runs : (call budget channel addr limit).Runs transcript (.ended outcome)

namespace Attempt

def posted (c : Attempt) : UInt32 := compose c.channel c.addr

def accesses (c : Attempt) : List (Access MailboxPort) := c.transcript.accesses

/-- The post the call makes. -/
def own (c : Attempt) (l : Line) : Post := ⟨l.posts, c.posted⟩

/-- The post whose echo the last access of the call takes, if the call starts on this line. -/
def accepted (c : Attempt) (l : Line) : Option Post :=
  (l.after c.accesses.dropLast).pending.head?

/-- The call on hardware of a given behaviour, after these accesses. -/
def on (hw : Behaviour MailboxPort) (past : List (Access MailboxPort)) (budget : Budget)
    (channel : Channel) (addr : UInt32) (limit : Nat) : Attempt where
  budget := budget
  channel := channel
  addr := addr
  limit := limit
  transcript := ((call budget channel addr limit).record hw past).transcript
  outcome := ((call budget channel addr limit).record hw past).outcome
  runs := Tree.runs_record ..

variable {c : Attempt} {l : Line} {sent : List UInt32}

theorem accesses_of_ok (hok : c.outcome = .ok ()) :
    ∃ full waits, ∃ others : List Arrival, (∀ a ∈ others, a.word ≠ c.posted) ∧
      c.accesses = transmission full c.posted ++ others.flatMap Arrival.accesses ++
        Arrival.accesses ⟨waits, c.posted⟩ := by
  rcases runs_call c.runs with ⟨full, -, ho⟩ | ⟨full, others, hne, ⟨waits, hT, -⟩ | ⟨-, ho⟩⟩
  · exact absurd hok ho.ne_ok
  · exact ⟨full, waits, others, hne, hT⟩
  · exact absurd hok ho.ne_ok

theorem posted_mem_postedWords (hok : c.outcome = .ok ()) : c.posted ∈ postedWords c.accesses := by
  obtain ⟨full, waits, others, -, hA⟩ := accesses_of_ok hok
  refine List.mem_filterMap.2 ⟨given c.posted, ?_, rfl⟩
  simp [hA, transmission]

/-- A call that succeeds takes the oldest echo with its word, and leaves the younger ones. -/
theorem accepted_eq (hok : c.outcome = .ok ()) (h : Echoes sent l c.accesses)
    (hs : c.posted ∈ sent) :
    c.accepted l = ((l.post c.posted).pending.dropWhile (·.word != c.posted)).head? ∧
      (l.after c.accesses).pending =
        ((l.post c.posted).pending.dropWhile (·.word != c.posted)).tail := by
  obtain ⟨full, waits, others, hne, hA⟩ := accesses_of_ok hok
  -- the line as the echo finds it
  generalize hm : (l.post c.posted).after (others.flatMap Arrival.accesses) = m
  have hafter : l.after (transmission full c.posted ++ others.flatMap Arrival.accesses ++
      List.replicate waits (emptyPoll true) ++ [emptyPoll false]) = m := by
    simp only [Line.after_append, Line.after_transmission, hm, Line.after_replicate_emptyPoll,
      Line.after_emptyPoll, Line.after_nil]
  have hlast : c.accesses = transmission full c.posted ++ others.flatMap Arrival.accesses ++
      List.replicate waits (emptyPoll true) ++ [emptyPoll false] ++ [taken c.posted] := by
    rw [hA, Arrival.accesses]
    simp
  rw [hlast, echoes_append, hafter] at h
  have hhead : m.pending.head?.map Post.word = some c.posted := h.2.1 hs
  have hqueue : m.pending.dropWhile (·.word != c.posted) =
      (l.post c.posted).pending.dropWhile (·.word != c.posted) := by
    rw [← hm, Line.dropWhile_after_arrivals hne]
  cases hp : m.pending with
  | nil => simp [hp] at hhead
  | cons e rest =>
    have he : e.word = c.posted := by simpa [hp] using hhead
    rw [← hqueue, hp, List.dropWhile_cons_of_neg (by simp [he])]
    constructor
    · rw [accepted, hlast, List.dropLast_concat, hafter, hp]
    · rw [hlast, Line.after_append, hafter, Line.after_taken, Line.after_nil, Line.take,
        if_pos hhead, hp]

theorem posts_after_of_ok (hok : c.outcome = .ok ()) :
    (l.after c.accesses).posts = l.posts + 1 := by
  obtain ⟨full, waits, others, -, hA⟩ := accesses_of_ok hok
  rw [hA, Line.after_append, Line.after_append, Line.after_transmission, Line.after_arrival,
    Line.posts_take, Line.posts_after_arrivals, Line.post]

/-- A call that does not succeed leaves the line as it is, or posts its word on it and takes others
away. -/
theorem after_of_not_ok (hok : c.outcome ≠ .ok ()) :
    l.after c.accesses = l ∨
      ((l.after c.accesses).posts = l.posts + 1 ∧
        (l.after c.accesses).pending ⊆ l.pending ++ [c.own l]) := by
  rcases runs_call c.runs with
    ⟨full, hT, -⟩ | ⟨full, others, -, ⟨waits, -, ho⟩ | ⟨⟨empties, hT⟩, -⟩⟩
  · exact .inl (by rw [accesses, hT, Line.after_replicate_fullPoll])
  · exact absurd ho hok
  · refine .inr ?_
    rw [accesses, hT, Line.after_append, Line.after_append, Line.after_transmission,
      Line.after_replicate_emptyPoll]
    exact ⟨Line.posts_after_arrivals others, Line.pending_after_arrivals_subset others⟩

end Attempt

/-- Each pending post is one of those made so far, and a call that did not succeed had its word. -/
structure Accounted (done : List Attempt) (l : Line) : Prop where
  numbered : ∀ p ∈ l.pending, p.number < l.posts
  unanswered : ∀ p ∈ l.pending, ∃ x ∈ done, x.posted = p.word ∧ x.outcome ≠ .ok ()

namespace Accounted

variable {c : Attempt} {done : List Attempt} {l : Line} {sent : List UInt32}

theorem nil : Accounted [] {} := ⟨by simp, by simp⟩

theorem append (h : Accounted done l) : Accounted (done ++ [c]) l where
  numbered := h.numbered
  unanswered p hp := by
    obtain ⟨x, hx, hw⟩ := h.unanswered p hp
    exact ⟨x, List.mem_append_left _ hx, hw⟩

/-- A call leaves older posts on the line, and its own if that can be accounted for. -/
theorem of_post {l' : Line} (h : Accounted done l) (hposts : l'.posts = l.posts + 1)
    (hsub : l'.pending ⊆ l.pending ++ [c.own l])
    (hown : c.own l ∈ l'.pending → ∃ x ∈ done ++ [c], x.posted = c.posted ∧ x.outcome ≠ .ok ()) :
    Accounted (done ++ [c]) l' := by
  constructor
  · intro p hp
    rw [hposts]
    rcases List.mem_append.1 (hsub hp) with hp | hp
    · exact Nat.lt_succ_of_lt (h.numbered p hp)
    · obtain rfl := List.mem_singleton.1 hp
      exact Nat.lt_succ_self _
  · intro p hp
    rcases List.mem_append.1 (hsub hp) with hl | hl
    · exact h.append.unanswered p hl
    · obtain rfl := List.mem_singleton.1 hl
      exact hown hp

theorem attempt (h : Accounted done l) (he : Echoes sent l c.accesses)
    (hs : ∀ w ∈ postedWords c.accesses, w ∈ sent) :
    Accounted (done ++ [c]) (l.after c.accesses) := by
  by_cases hok : c.outcome = .ok ()
  · have hposts := Attempt.posts_after_of_ok (l := l) hok
    obtain ⟨-, hpending⟩ := Attempt.accepted_eq hok he (hs _ (Attempt.posted_mem_postedWords hok))
    rw [Line.dropWhile_post] at hpending
    rcases l.dropWhile_pending c.posted with ⟨hd, -⟩ | ⟨e, rest, hd, hw, hsub⟩
    · rw [hd, List.nil_append, List.tail_cons] at hpending
      refine h.of_post hposts ?_ ?_
      · simp [hpending]
      · simp [hpending]
    · -- the call took the echo of `e`, and left its own behind
      rw [hd, List.cons_append, List.tail_cons] at hpending
      refine h.of_post hposts ?_ fun _ => ?_
      · rw [hpending]
        exact List.append_subset.2 ⟨fun p hp => List.mem_append_left _
          (hsub p (List.mem_cons_of_mem _ hp)), List.subset_append_right _ _⟩
      · obtain ⟨x, hx, hxe, ho⟩ := h.append.unanswered e (hsub e List.mem_cons_self)
        exact ⟨x, hx, hxe.trans hw, ho⟩
  · -- a post that nobody answered is blamed on the call that made it
    rcases Attempt.after_of_not_ok (l := l) hok with hl | ⟨hposts, hsub⟩
    · rw [hl]
      exact h.append
    · exact h.of_post hposts hsub fun _ => ⟨c, by simp, rfl, hok⟩

theorem attempts {calls : List Attempt} (h : Accounted done l)
    (he : Echoes sent l (calls.flatMap Attempt.accesses))
    (hs : ∀ w ∈ postedWords (calls.flatMap Attempt.accesses), w ∈ sent) :
    Accounted (done ++ calls) (l.after (calls.flatMap Attempt.accesses)) := by
  induction calls generalizing done l with
  | nil => simpa using h
  | cons c calls ih =>
    rw [List.flatMap_cons] at he hs ⊢
    rw [postedWords, List.filterMap_append] at hs
    obtain ⟨hc, he⟩ := echoes_append.1 he
    have hstep := h.attempt hc fun w hw => hs w (List.mem_append_left _ hw)
    have hrest := ih hstep he fun w hw => hs w (List.mem_append_right _ hw)
    rw [Line.after_append]
    simpa using hrest

end Accounted

/-- What is on its way after these calls. -/
def lineAfter (calls : List Attempt) : Line := Line.after {} (calls.flatMap Attempt.accesses)

/-- A call that succeeds takes its own echo, and leaves none of its own behind, exactly if no other
echo of its word was on its way when it was made. An echo that is not its own belongs to an older
post, and there was a call for the same word that did not succeed. -/
theorem accepts_own_echo_iff {before later : List Attempt} {c : Attempt}
    (h : EchoesInOrder ((before ++ c :: later).flatMap Attempt.accesses))
    (hok : c.outcome = .ok ()) :
    ∃ e, c.accepted (lineAfter before) = some e ∧ e.word = c.posted ∧
      (e = c.own (lineAfter before) ↔ ∀ p ∈ (lineAfter before).pending, p.word ≠ c.posted) ∧
      (c.own (lineAfter before) ∉ (lineAfter (before ++ [c])).pending ↔
        ∀ p ∈ (lineAfter before).pending, p.word ≠ c.posted) ∧
      (e ≠ c.own (lineAfter before) →
        e ∈ (lineAfter before).pending ∧ e.number < (c.own (lineAfter before)).number ∧
        ∃ x ∈ before, x.posted = c.posted ∧ x.outcome ≠ .ok ()) := by
  obtain ⟨sent, hsent, h⟩ : ∃ sent, (∀ w ∈ postedWords (before.flatMap Attempt.accesses) ++
      postedWords c.accesses, w ∈ sent) ∧
      Echoes sent {} ((before ++ c :: later).flatMap Attempt.accesses) := by
    refine ⟨_, fun w hw => ?_, h⟩
    simp only [List.flatMap_append, List.flatMap_cons, postedWords, List.filterMap_append,
      List.mem_append] at hw ⊢
    rcases hw with hw | hw
    · exact .inl hw
    · exact .inr (.inl hw)
  have hline : lineAfter (before ++ [c]) = (lineAfter before).after c.accesses := by
    simp [lineAfter, Line.after_append]
  rw [List.flatMap_append, List.flatMap_cons, echoes_append] at h
  obtain ⟨hbefore, hrest⟩ := h
  change Echoes sent (lineAfter before) _ at hrest
  obtain ⟨hc, -⟩ := echoes_append.1 hrest
  have hacc : Accounted before (lineAfter before) :=
    Accounted.nil.attempts hbefore fun w hw => hsent w (List.mem_append_left _ hw)
  obtain ⟨haccepted, hpending⟩ := Attempt.accepted_eq hok hc
    (hsent _ (List.mem_append_right _ (Attempt.posted_mem_postedWords hok)))
  rw [Line.dropWhile_post] at haccepted hpending
  rw [hline]
  rcases (lineAfter before).dropWhile_pending c.posted with ⟨hd, hall⟩ | ⟨e, rest, hd, hw, hsub⟩
  · refine ⟨c.own (lineAfter before), ?_, rfl, ?_, ?_, fun h => absurd rfl h⟩
    · rw [haccepted, hd]
      rfl
    · exact iff_of_true rfl hall
    · refine iff_of_true ?_ hall
      rw [hpending, hd]
      simp
  · have hmem : e ∈ (lineAfter before).pending := hsub e List.mem_cons_self
    have hnumber : e.number < (c.own (lineAfter before)).number := hacc.numbered e hmem
    have hnot : ¬ ∀ p ∈ (lineAfter before).pending, p.word ≠ c.posted := fun h => h e hmem hw
    refine ⟨e, ?_, hw, ?_, ?_, fun _ => ⟨hmem, hnumber, ?_⟩⟩
    · rw [haccepted, hd]
      rfl
    · refine iff_of_false ?_ hnot
      rintro rfl
      exact Nat.lt_irrefl _ hnumber
    · refine iff_of_false (fun h => h ?_) hnot
      rw [hpending, hd]
      exact List.mem_append_right rest (List.mem_singleton_self _)
    · obtain ⟨x, hx, hxw, ho⟩ := hacc.unanswered e hmem
      exact ⟨x, hx, hxw.trans hw, ho⟩

/-- A port that is empty when the first call looks, so that its echo comes during the second. -/
def latePort : Behaviour MailboxPort :=
  port (fun _ => false) (fun past => past.length == 2)
    fun past => if past.length = 6 then 0x18 else 0x28

/-- A call that does not wait at all, and so leaves before its echo comes. -/
def hasty : Attempt := .on latePort [] (.bounded 0) .property 0x10 2

/-- A call for another word behind it. -/
def patient : Attempt := .on latePort hasty.accesses .unlimited .property 0x20 2

/-- A call for the same word behind it. -/
def retry : Attempt := .on latePort hasty.accesses .unlimited .property 0x10 2

theorem accepts_own_echo_patient :
    EchoesInOrder (([hasty] ++ patient :: []).flatMap Attempt.accesses) ∧
      patient.outcome = .ok () ∧
      patient.accepted (lineAfter [hasty]) = some (patient.own (lineAfter [hasty])) := by
  have h : EchoesInOrder (([hasty] ++ patient :: []).flatMap Attempt.accesses) := by decide
  have hok : patient.outcome = .ok () := by decide
  obtain ⟨e, he, -, hown, -⟩ := accepts_own_echo_iff h hok
  refine ⟨h, hok, ?_⟩
  rw [he, hown.2 (by decide)]

/-- The retry takes the echo of the call before it, and its own is still to come. -/
theorem retry_takes_late_echo :
    EchoesInOrder (([hasty] ++ retry :: []).flatMap Attempt.accesses) ∧
      hasty.outcome = .error .timeout ∧ retry.outcome = .ok () ∧
      retry.accepted (lineAfter [hasty]) = some (hasty.own (lineAfter [])) ∧
      hasty.own (lineAfter []) ≠ retry.own (lineAfter [hasty]) ∧
      retry.own (lineAfter [hasty]) ∈ (lineAfter ([hasty] ++ [retry])).pending := by
  decide

end Mailbox

end Bcm2835
