import Noobia.Council.Transcript

/-!
# The agent that begins a conversation

`council-agent` is what a participant starts a conversation with.  It asks one arbiter after the
other whether a conversation is going on, and hands its message to the first that answers and has
none.  The contacts with an arbiter priority are the arbiters; `next_arbiter` looks for the one with
the lowest priority above that of the last, which is all the loop remembers.

* `nextArbiter_spec` says what `next_arbiter` finds.
* `agentLoop_isSome` says that the loop ends, because the priority goes up in every round.
* `rounds_spec` says which arbiters have been tried when nobody could be reached: one for every
  priority, in order.  Of several arbiters with the same priority only the first is tried, and
  `all_arbiters_tried_iff` says that the agent has been through all of them just if there are no
  such arbiters.
-/

namespace Noobia.Council

open List Bytes

variable {book : List Contact}

/-! ## The loop -/

def nextArbiter (book : List Contact) (after : Nat) : Option (Fin book.length) :=
  (List.finRange book.length).foldl
    (fun best i ↦
      if book[i].arbiterPriority ≤ after then best
      else
        match best with
        | none => some i
        | some b => if book[i].arbiterPriority < book[b].arbiterPriority then some i else some b)
    none

/-- How `main` ends once the configuration has been read. -/
inductive AgentExit (book : List Contact)
  /-- The answer to `BUSY` is printed, as it was asked for. -/
  | busy (arbiter : Fin book.length) (reply : Bytes)
  /-- There is a conversation already. -/
  | notIdle (arbiter : Fin book.length) (reply : Bytes)
  /-- The operation is unknown, or the message has a line break. -/
  | usage
  /-- The answer to `INITIATE` is printed. -/
  | answered (arbiter : Fin book.length) (reply : Bytes)
  /-- `no arbiter reachable`. -/
  | unreachable

/-- The exit status. -/
def AgentExit.status : AgentExit book → Nat
  | busy _ _ => 0
  | notIdle _ _ => 3
  | usage => 2
  | answered _ reply => if reply = Bytes.ofAscii "ACCEPTED" then 0 else 1
  | unreachable => 1

/-- One round: an arbiter, and the commands that have been sent to it. -/
structure AgentRound (book : List Contact) where
  arbiter : Fin book.length
  commands : List Bytes

/-- The command that begins a conversation, cut off where `command` ends. -/
def initiateCommand (message : Bytes) : Bytes :=
  (Bytes.ofAscii "INITIATE " ++ message).take (messageLength - 1)

/-- The loop of `main`, with the rounds it makes.  `answers k` is what comes back from the `k`-th
`protocol_send_command`, if anything does.  There is no result if so many rounds are not enough. -/
def agentLoop (book : List Contact) (operation message : Bytes) (answers : Nat → Option Bytes) :
    Nat → Nat → Nat → Option (AgentExit book × List (AgentRound book))
  | 0, _, _ => none
  | fuel + 1, priority, sent =>
    match nextArbiter book priority with
    | none => some (.unreachable, [])
    | some arbiter =>
      let priority := book[arbiter].arbiterPriority
      let busy := Bytes.ofAscii "BUSY"
      match answers sent with
      | none =>
        (agentLoop book operation message answers fuel priority (sent + 1)).map fun (exit, rounds) ↦
          (exit, ⟨arbiter, [busy]⟩ :: rounds)
      | some reply =>
        if operation = Bytes.ofAscii "busy" then some (.busy arbiter reply, [⟨arbiter, [busy]⟩])
        else if !(Bytes.ofAscii "IDLE").isPrefixOf reply then
          some (.notIdle arbiter reply, [⟨arbiter, [busy]⟩])
        else if operation ≠ Bytes.ofAscii "initiate" || message.contains 10 ||
            message.contains 13 then
          some (.usage, [⟨arbiter, [busy]⟩])
        else
          match answers (sent + 1) with
          | some reply =>
            some (.answered arbiter reply, [⟨arbiter, [busy, initiateCommand message]⟩])
          | none =>
            (agentLoop book operation message answers fuel priority (sent + 2)).map
              fun (exit, rounds) ↦
                (exit, ⟨arbiter, [busy, initiateCommand message]⟩ :: rounds)

/-- `main` of `council-agent`. -/
def agentMain (book : List Contact) (operation message : Bytes) (answers : Nat → Option Bytes) :
    Option (AgentExit book × List (AgentRound book)) :=
  agentLoop book operation message answers (book.length + 1) 0 0

/-! ## What `next_arbiter` finds -/

/-- The best of the contacts that have been looked at. -/
def IsBest (book : List Contact) (after : Nat) (seen : List (Fin book.length)) :
    Option (Fin book.length) → Prop
  | none => ∀ i ∈ seen, book[i].arbiterPriority ≤ after
  | some b => after < book[b].arbiterPriority ∧
      ∀ i ∈ seen, after < book[i].arbiterPriority →
        book[b].arbiterPriority ≤ book[i].arbiterPriority

variable {after : Nat}

theorem isBest_foldl (more : List (Fin book.length)) {seen : List (Fin book.length)}
    {best : Option (Fin book.length)} (h : IsBest book after seen best) :
    IsBest book after (seen ++ more)
      (more.foldl
        (fun best i ↦
          if book[i].arbiterPriority ≤ after then best
          else
            match best with
            | none => some i
            | some b =>
              if book[i].arbiterPriority < book[b].arbiterPriority then some i else some b)
        best) := by
  induction more generalizing seen best with
  | nil =>
    rw [append_nil]
    exact h
  | cons i more ih =>
    rw [foldl_cons, ← singleton_append, ← append_assoc]
    refine ih ?_
    split
    · rename_i hle
      cases best with
      | none => exact forall_mem_append.mpr ⟨h, forall_mem_singleton.mpr hle⟩
      | some b =>
        refine ⟨h.1, forall_mem_append.mpr ⟨h.2, forall_mem_singleton.mpr ?_⟩⟩
        intro hlt
        omega
    · rename_i hlt
      cases best with
      | none =>
        refine ⟨Nat.lt_of_not_le hlt, forall_mem_append.mpr
          ⟨fun j hj hlt' ↦ ?_, forall_mem_singleton.mpr fun _ ↦ Nat.le_refl _⟩⟩
        exact absurd hlt' (Nat.not_lt.mpr (h j hj))
      | some b =>
        obtain ⟨hb, hseen⟩ := h
        dsimp only
        split
        · rename_i hbetter
          refine ⟨Nat.lt_of_not_le hlt, forall_mem_append.mpr
            ⟨fun j hj hlt' ↦ ?_, forall_mem_singleton.mpr fun _ ↦ Nat.le_refl _⟩⟩
          exact Nat.le_trans (Nat.le_of_lt hbetter) (hseen j hj hlt')
        · rename_i hworse
          exact ⟨hb, forall_mem_append.mpr
            ⟨hseen, forall_mem_singleton.mpr fun _ ↦ Nat.le_of_not_lt hworse⟩⟩

/-- `next_arbiter` finds an arbiter with the lowest priority above that of the last, if there is
one. -/
theorem nextArbiter_spec (book : List Contact) (after : Nat) :
    IsBest book after (List.finRange book.length) (nextArbiter book after) := by
  have hnone : IsBest book after [] none := fun i hi ↦ nomatch hi
  have h := isBest_foldl (List.finRange book.length) hnone
  rw [nil_append] at h
  exact h

/-! ## The loop ends -/

/-- The contacts whose priority is above that. -/
def above (book : List Contact) (after : Nat) : List (Fin book.length) :=
  (List.finRange book.length).filter fun i ↦ after < book[i].arbiterPriority

theorem mem_above {i : Fin book.length} :
    i ∈ above book after ↔ after < book[i].arbiterPriority := by
  rw [above, mem_filter, decide_eq_true_eq]
  exact and_iff_right (mem_finRange i)

variable {arbiter : Fin book.length}

theorem length_above_lt
    (h : after < book[arbiter].arbiterPriority) :
    (above book book[arbiter].arbiterPriority).length < (above book after).length := by
  have hsublist : (above book book[arbiter].arbiterPriority).Sublist (above book after) := by
    refine monotone_filter_right _ fun i hi ↦ ?_
    rw [decide_eq_true_eq] at hi ⊢
    omega
  refine Nat.lt_of_le_of_ne hsublist.length_le fun heq ↦ ?_
  have hmem := mem_above.mpr h
  rw [← hsublist.eq_of_length heq, mem_above] at hmem
  omega

/-- **The loop ends.** -/
theorem agentLoop_isSome (operation message : Bytes) (answers : Nat → Option Bytes) {fuel : Nat}
    {priority : Nat} (sent : Nat) (hfuel : (above book priority).length < fuel) :
    (agentLoop book operation message answers fuel priority sent).isSome = true := by
  induction fuel generalizing priority sent with
  | zero => cases hfuel
  | succ fuel ih =>
    have hspec := nextArbiter_spec book priority
    rw [agentLoop]
    cases hnext : nextArbiter book priority with
    | none => rfl
    | some arbiter =>
      rw [hnext] at hspec
      have hless := length_above_lt hspec.1
      have hrest (sent : Nat) := @ih book[arbiter].arbiterPriority sent (by omega)
      dsimp only
      split
      · rw [Option.isSome_map]
        exact hrest _
      split
      · rfl
      split
      · rfl
      split
      · rfl
      split
      · rfl
      · rw [Option.isSome_map]
        exact hrest _

theorem agentMain_isSome (book : List Contact) (operation message : Bytes)
    (answers : Nat → Option Bytes) : (agentMain book operation message answers).isSome = true := by
  refine agentLoop_isSome _ _ _ 0 (Nat.lt_succ_of_le ?_)
  refine Nat.le_trans (length_filter_le _ _) ?_
  rw [length_finRange]

/-! ## Who is tried -/

/-- The arbiters that have been tried: their priorities go up, and none above the first is left
out. -/
structure Tried (book : List Contact) (after : Nat) (arbiters : List (Fin book.length)) : Prop where
  rising : arbiters.Pairwise fun i j ↦ book[i].arbiterPriority < book[j].arbiterPriority
  above : ∀ i ∈ arbiters, after < book[i].arbiterPriority
  every : ∀ i : Fin book.length, after < book[i].arbiterPriority →
    ∃ j ∈ arbiters, book[j].arbiterPriority = book[i].arbiterPriority

theorem Tried.cons {arbiters : List (Fin book.length)}
    (hbest : IsBest book after (List.finRange book.length) (some arbiter))
    (h : Tried book book[arbiter].arbiterPriority arbiters) :
    Tried book after (arbiter :: arbiters) where
  rising := pairwise_cons.mpr ⟨h.above, h.rising⟩
  above := forall_mem_cons.mpr
    ⟨hbest.1, fun i hi ↦ Nat.lt_trans hbest.1 (h.above i hi)⟩
  every i hi := by
    rcases Nat.lt_or_eq_of_le (hbest.2 i (mem_finRange i) hi) with hlt | heq
    · obtain ⟨j, hj, heq⟩ := h.every i hlt
      exact ⟨j, mem_cons_of_mem _ hj, heq⟩
    · exact ⟨arbiter, mem_cons_self .., heq⟩

/-- **When nobody could be reached, one arbiter of every priority has been tried, in order.** -/
theorem rounds_spec {operation message : Bytes} {answers : Nat → Option Bytes}
    {fuel priority sent : Nat} {rounds : List (AgentRound book)}
    (h : agentLoop book operation message answers fuel priority sent =
      some (.unreachable, rounds)) : Tried book priority (rounds.map AgentRound.arbiter) := by
  induction fuel generalizing priority sent rounds with
  | zero => cases h
  | succ fuel ih =>
    have hspec := nextArbiter_spec book priority
    rw [agentLoop] at h
    cases hnext : nextArbiter book priority with
    | none =>
      rw [hnext] at hspec h
      obtain rfl := (Prod.mk.inj (Option.some.inj h)).2
      refine ⟨.nil, fun i hi ↦ (nomatch hi), fun i hi ↦ ?_⟩
      exact absurd hi (Nat.not_lt.mpr (hspec i (mem_finRange i)))
    | some arbiter =>
      rw [hnext] at hspec h
      -- Whichever command it was that failed, the rest of the rounds are those of the rest.
      have hrest {sent : Nat} {commands : List Bytes}
          (h : ((agentLoop book operation message answers fuel book[arbiter].arbiterPriority
            sent).map fun (exit, rounds) ↦ (exit, ⟨arbiter, commands⟩ :: rounds)) =
              some (.unreachable, rounds)) :
          Tried book priority (rounds.map AgentRound.arbiter) := by
        obtain ⟨⟨exit, rounds'⟩, hloop, heq⟩ := Option.map_eq_some_iff.mp h
        obtain ⟨rfl, rfl⟩ := Prod.mk.inj heq
        exact (ih hloop).cons hspec
      dsimp only at h
      split at h
      · exact hrest h
      split at h
      · cases h
      split at h
      · cases h
      split at h
      · cases h
      split at h
      · cases h
      · exact hrest h

/-- No two arbiters have the same priority. -/
def DistinctPriorities (book : List Contact) : Prop :=
  ∀ i j : Fin book.length, 0 < book[i].arbiterPriority →
    book[i].arbiterPriority = book[j].arbiterPriority → i = j

/-- **When the agent says that no arbiter can be reached, it has tried every arbiter once and in the
order of their priorities, just if no two of them have the same.** -/
theorem all_arbiters_tried_iff (book : List Contact) (operation message : Bytes)
    (answers : Nat → Option Bytes) :
    (agentMain book operation message answers).isSome = true ∧
    ∀ rounds, agentMain book operation message answers = some (.unreachable, rounds) →
      (((rounds.map AgentRound.arbiter).Perm (above book 0) ∧
        (rounds.map AgentRound.arbiter).Pairwise
          fun i j ↦ book[i].arbiterPriority ≤ book[j].arbiterPriority) ↔
        DistinctPriorities book) := by
  refine ⟨agentMain_isSome .., fun rounds hrounds ↦ ?_⟩
  have htried := rounds_spec hrounds
  have hnodup : (rounds.map AgentRound.arbiter).Nodup :=
    htried.rising.imp fun hlt heq ↦ absurd hlt (by rw [heq]; exact Nat.lt_irrefl _)
  constructor
  · rintro ⟨hperm, -⟩ i j hpos heq
    have hdiffer : ((rounds.map AgentRound.arbiter).map
        fun i ↦ book[i].arbiterPriority).Nodup :=
      pairwise_map.mpr (htried.rising.imp Nat.ne_of_lt)
    exact inj_on_of_nodup_map hdiffer (hperm.mem_iff.mpr (mem_above.mpr hpos))
      (hperm.mem_iff.mpr (mem_above.mpr (heq ▸ hpos))) heq
  · intro hdistinct
    have habove : (above book 0).Nodup := (nodup_finRange _).filter _
    refine ⟨(perm_ext_iff_of_nodup hnodup habove).mpr fun i ↦ ?_,
      htried.rising.imp Nat.le_of_lt⟩
    rw [mem_above]
    refine ⟨htried.above i, fun hpos ↦ ?_⟩
    obtain ⟨j, hj, heq⟩ := htried.every i hpos
    rw [hdistinct i j hpos heq.symm]
    exact hj

/-- Two arbiters with the same priority, neither of which answers: the second is not tried. -/
theorem tied_arbiter_skipped :
    let arbiter (name : Bytes) : Contact := ⟨.snprintf name, .ai, 1⟩
    let book := [arbiter (ofAscii "ada"), arbiter (ofAscii "bob")]
    (agentMain book (ofAscii "initiate") (ofAscii "hello") fun _ ↦ none).map
      (fun r ↦ (r.1.status, r.2.map fun round ↦ round.arbiter.val)) = some (1, [0]) ∧
      (above book 0).map Fin.val = [0, 1] := by
  decide +kernel

/-- With two priorities both are tried. -/
theorem all_arbiters_tried_in_order :
    let arbiter (name : Bytes) (priority : Nat) : Contact := ⟨.snprintf name, .ai, priority⟩
    let book := [arbiter (ofAscii "ada") 2, arbiter (ofAscii "bob") 1]
    ∃ rounds, agentMain book (ofAscii "initiate") (ofAscii "hello") (fun _ ↦ none) =
        some (.unreachable, rounds) ∧
      (rounds.map AgentRound.arbiter).Perm (above book 0) := by
  intro arbiter book
  have hdistinct : DistinctPriorities book := by
    unfold DistinctPriorities
    decide
  exact ⟨_, rfl, (((all_arbiters_tried_iff book (ofAscii "initiate") (ofAscii "hello")
    fun _ ↦ none).2 _ rfl).mpr hdistinct).1⟩

end Noobia.Council
