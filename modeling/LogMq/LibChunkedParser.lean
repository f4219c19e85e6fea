import Mathlib.Tactic

/-! Parsers that are fed a stream in chunks. A splitter says what stands at the front of a buffer: nothing complete
yet, something malformed, or an item of some size. A parser drains its buffer after every chunk and keeps the rest.
However the stream is cut, the items are the same as long as nothing is malformed. -/

namespace ChunkedParser

/-- What stands at the front of a buffer. -/
inductive Front (ε α : Type) where
  | more
  | bad (reason : ε)
  | item (value : α) (size : Nat)

/-- An item is determined by its own elements, and what is malformed stays so whatever follows. -/
structure Splitter (β ε α : Type) where
  front : List β → Front ε α
  size_pos : ∀ {buffer value size}, front buffer = .item value size → 0 < size
  size_le : ∀ {buffer value size}, front buffer = .item value size → size ≤ buffer.length
  item_append : ∀ {buffer value size}, front buffer = .item value size → ∀ behind,
    front (buffer ++ behind) = .item value size
  item_take : ∀ {buffer value size}, front buffer = .item value size → front (buffer.take size) = .item value size
  bad_append : ∀ {buffer reason}, front buffer = .bad reason → ∀ behind, front (buffer ++ behind) = .bad reason

variable {β ε α : Type} (splitter : Splitter β ε α)

/-! ### Items at the front of a stream -/

/-- The stream starts with these items, which take its first `size` elements. -/
inductive Splits : List β → List α → Nat → Prop
  | nil (stream : List β) : Splits stream [] 0
  | cons {stream : List β} {value : α} {size : Nat} {items : List α} {total : Nat}
      (hfront : splitter.front stream = .item value size) (hrest : Splits (stream.drop size) items total) :
      Splits stream (value :: items) (size + total)

/-- These are all items at the front of the stream. -/
def Exhausted (stream : List β) (total : Nat) : Prop :=
  ∀ value size, splitter.front (stream.drop total) ≠ .item value size

variable {splitter}

namespace Splits

variable {stream : List β} {items : List α} {total : Nat}

theorem total_le (h : Splits splitter stream items total) : total ≤ stream.length := by
  induction h with
  | nil stream => exact Nat.zero_le _
  | cons hfront _ ih =>
      have hsize := splitter.size_le hfront
      rw [List.length_drop] at ih
      omega

/-- More elements behind the stream do not change the items. -/
theorem append (h : Splits splitter stream items total) (behind : List β) :
    Splits splitter (stream ++ behind) items total := by
  induction h with
  | nil stream => exact .nil _
  | cons hfront _ ih =>
      refine .cons (splitter.item_append hfront behind) ?_
      rw [List.drop_append_of_le_length (splitter.size_le hfront)]
      exact ih

/-- The elements behind the items do not matter. -/
theorem take (h : Splits splitter stream items total) {size : Nat} (hsize : total ≤ size) :
    Splits splitter (stream.take size) items total := by
  induction h generalizing size with
  | nil stream => exact .nil _
  | @cons stream value first items total hfront _ ih =>
      have hfirst := splitter.item_append (splitter.item_take hfront) ((stream.take size).drop first)
      have htake : stream.take first ++ (stream.take size).drop first = stream.take size := by
        conv_rhs => rw [← List.take_append_drop first (stream.take size)]
        rw [List.take_take, Nat.min_eq_left (by omega)]
      rw [htake] at hfirst
      refine .cons hfirst ?_
      rw [List.drop_take]
      exact ih (by omega)

theorem concat {more : List α} {rest : Nat} (h : Splits splitter stream items total)
    (hmore : Splits splitter (stream.drop total) more rest) :
    Splits splitter stream (items ++ more) (total + rest) := by
  induction h with
  | nil stream =>
      rw [List.nil_append, Nat.zero_add]
      exact hmore
  | cons hfront _ ih =>
      rw [List.cons_append, Nat.add_assoc]
      refine .cons hfront (ih ?_)
      rwa [List.drop_drop]

/-- Of two readings of a stream, the shorter one is the beginning of the longer one. -/
theorem extend {items' : List α} {total' : Nat} (h : Splits splitter stream items total)
    (h' : Splits splitter stream items' total') (hle : total ≤ total') :
    ∃ more, items' = items ++ more ∧ Splits splitter (stream.drop total) more (total' - total) := by
  induction h generalizing items' total' with
  | nil stream => exact ⟨items', rfl, h'⟩
  | cons hfront _ ih =>
      have hpos := splitter.size_pos hfront
      cases h' with
      | nil stream => omega
      | cons hfront' hrest' =>
          cases hfront.symm.trans hfront'
          obtain ⟨more, rfl, hmore⟩ := ih hrest' (by omega)
          refine ⟨more, rfl, ?_⟩
          rw [← List.drop_drop, Nat.add_sub_add_left]
          exact hmore

/-- Nothing can be read behind all items. -/
theorem le_of_exhausted {items' : List α} {total' : Nat} (h : Splits splitter stream items total)
    (hexhausted : Exhausted splitter stream total') (h' : Splits splitter stream items' total') : total ≤ total' := by
  by_contra hlt
  obtain ⟨more, -, hmore⟩ := h'.extend h (by omega)
  generalize hgap : total - total' = gap at hmore
  cases hmore with
  | nil stream => omega
  | cons hfront hrest => exact hexhausted _ _ hfront

theorem unique_of_exhausted {items' : List α} {total' : Nat} (h : Splits splitter stream items total)
    (hexhausted : Exhausted splitter stream total) (h' : Splits splitter stream items' total')
    (hexhausted' : Exhausted splitter stream total') : items' = items ∧ total' = total := by
  have hle := h.le_of_exhausted hexhausted' h'
  have hge := h'.le_of_exhausted hexhausted h
  obtain ⟨more, rfl, hmore⟩ := h.extend h' hle
  rw [show total' - total = 0 by omega] at hmore
  generalize hzero : 0 = gap at hmore
  cases hmore with
  | nil stream => exact ⟨List.append_nil _, by omega⟩
  | cons hfront hrest =>
      have hpos := splitter.size_pos hfront
      omega

end Splits

/-- Every stream has its items. -/
theorem exists_splits (stream : List β) :
    ∃ items total, Splits splitter stream items total ∧ Exhausted splitter stream total := by
  induction hlength : stream.length using Nat.strong_induction_on generalizing stream with
  | _ length ih =>
      cases hfront : splitter.front stream with
      | more =>
          refine ⟨[], 0, .nil _, fun value size h => ?_⟩
          rw [List.drop_zero, hfront] at h
          cases h
      | bad reason =>
          refine ⟨[], 0, .nil _, fun value size h => ?_⟩
          rw [List.drop_zero, hfront] at h
          cases h
      | item value size =>
          have hpos := splitter.size_pos hfront
          have hle := splitter.size_le hfront
          obtain ⟨items, total, hsplits, hexhausted⟩ :=
            ih (stream.drop size).length (by rw [List.length_drop]; omega) (stream.drop size) rfl
          refine ⟨value :: items, size + total, .cons hfront hsplits, ?_⟩
          rw [Exhausted, ← List.drop_drop]
          exact hexhausted

/-! ### Draining -/

variable (splitter)

/-- All items of a buffer and the rest of it. What has been read is lost when something malformed follows. -/
def drain : Nat → List β → List α → Except ε (List α) × List β
  | 0, buffer, items => (.ok items, buffer)
  | fuel + 1, buffer, items =>
      match splitter.front buffer with
      | .more => (.ok items, buffer)
      | .bad reason => (.error reason, buffer)
      | .item value size => drain fuel (buffer.drop size) (items ++ [value])

/-- One chunk more. -/
def push (buffer chunk : List β) : Except ε (List α) × List β :=
  drain splitter ((buffer ++ chunk).length + 1) (buffer ++ chunk) []

variable {splitter}

theorem drain_eq {buffer : List β} {items : List α} {total : Nat} (h : Splits splitter buffer items total)
    {fuel : Nat} (hfuel : buffer.length < fuel) (sofar : List α) :
    (splitter.front (buffer.drop total) = .more →
        drain splitter fuel buffer sofar = (.ok (sofar ++ items), buffer.drop total)) ∧
      ∀ reason, splitter.front (buffer.drop total) = .bad reason →
        drain splitter fuel buffer sofar = (.error reason, buffer.drop total) := by
  induction h generalizing fuel sofar with
  | nil stream =>
      cases fuel with
      | zero => omega
      | succ fuel =>
          rw [List.drop_zero, List.append_nil]
          constructor
          · intro hfront
            rw [drain, hfront]
          · intro reason hfront
            rw [drain, hfront]
  | @cons stream value size items total hfront hrest ih =>
      have hpos := splitter.size_pos hfront
      have hle := splitter.size_le hfront
      cases fuel with
      | zero => omega
      | succ fuel =>
          have hshort : (stream.drop size).length < fuel := by
            rw [List.length_drop]
            omega
          obtain ⟨hmore, hbad⟩ := ih hshort (sofar ++ [value])
          rw [List.drop_drop] at hmore hbad
          rw [drain, hfront]
          rw [List.append_assoc, List.singleton_append] at hmore
          exact ⟨hmore, hbad⟩

/-! ### Feeding -/

/-- What a parser has returned for each chunk, its verdict if it has found something malformed, and its buffer. -/
structure Fed (β ε α : Type) where
  returned : List (List α)
  verdict : Option ε
  buffer : List β

variable (splitter)

/-- A parser is fed until it finds something malformed. -/
def feed : List β → List (List β) → Fed β ε α
  | buffer, [] => ⟨[], none, buffer⟩
  | buffer, chunk :: rest =>
      match push splitter buffer chunk with
      | (.error reason, buffer) => ⟨[], some reason, buffer⟩
      | (.ok items, buffer) =>
          let fed := feed buffer rest
          ⟨items :: fed.returned, fed.verdict, fed.buffer⟩

variable {splitter}

theorem push_of_more {buffer chunk : List β} {items : List α} {total : Nat}
    (h : Splits splitter (buffer ++ chunk) items total)
    (hmore : splitter.front ((buffer ++ chunk).drop total) = .more) :
    push splitter buffer chunk = (.ok items, (buffer ++ chunk).drop total) :=
  (drain_eq h (Nat.lt_succ_self _) []).1 hmore

theorem push_of_bad {buffer chunk : List β} {items : List α} {total : Nat} {reason : ε}
    (h : Splits splitter (buffer ++ chunk) items total)
    (hbad : splitter.front ((buffer ++ chunk).drop total) = .bad reason) :
    push splitter buffer chunk = (.error reason, (buffer ++ chunk).drop total) :=
  (drain_eq h (Nat.lt_succ_self _) []).2 reason hbad

theorem exhausted_of_more {stream : List β} {total : Nat} (h : splitter.front (stream.drop total) = .more) :
    Exhausted splitter stream total := by
  intro value size hitem
  rw [h] at hitem
  cases hitem

theorem exhausted_of_bad {stream : List β} {total : Nat} {reason : ε}
    (h : splitter.front (stream.drop total) = .bad reason) : Exhausted splitter stream total := by
  intro value size hitem
  rw [h] at hitem
  cases hitem

theorem Splits.eq_nil {buffer : List β} {items : List α} {total : Nat} (h : Splits splitter buffer items total)
    (hwaiting : splitter.front buffer = .more) : items = [] ∧ total = 0 := by
  cases h with
  | nil stream => exact ⟨rfl, rfl⟩
  | cons hfront hrest => cases hwaiting.symm.trans hfront

/-- The beginning of a stream without malformed parts has none either. -/
theorem more_of_append {stream behind : List β} {items first : List α} {total used : Nat}
    (h : Splits splitter (stream ++ behind) items total)
    (hmore : splitter.front ((stream ++ behind).drop total) = .more) (hfirst : Splits splitter stream first used)
    (hexhausted : Exhausted splitter stream used) : splitter.front (stream.drop used) = .more := by
  have hle := (hfirst.append behind).le_of_exhausted (exhausted_of_more hmore) h
  obtain ⟨others, -, hothers⟩ := (hfirst.append behind).extend h hle
  cases hfront : splitter.front (stream.drop used) with
  | more => rfl
  | item value size => exact absurd hfront (hexhausted value size)
  | bad reason =>
      have hbad := splitter.bad_append hfront behind
      rw [← List.drop_append_of_le_length hfirst.total_le] at hbad
      generalize hgap : total - used = gap at hothers
      cases hothers with
      | nil stream =>
          rw [show total = used by omega, hbad] at hmore
          cases hmore
      | cons hitem hrest => cases hbad.symm.trans hitem

/-- These are the items of a stream without malformed parts. -/
structure Clean (splitter : Splitter β ε α) (stream : List β) (items : List α) (total : Nat) : Prop where
  splits : Splits splitter stream items total
  more : splitter.front (stream.drop total) = .more

/-- One chunk more of a stream without malformed parts: its new items are returned. -/
theorem Clean.push {stream chunk : List β} {items all : List α} {total whole : Nat}
    (h : Clean splitter stream items total) (hall : Clean splitter (stream ++ chunk) all whole) :
    ∃ new, all = items ++ new ∧
      push splitter (stream.drop total) chunk = (.ok new, (stream ++ chunk).drop whole) := by
  have hle := (h.splits.append chunk).le_of_exhausted (exhausted_of_more hall.more) hall.splits
  obtain ⟨new, rfl, hnew⟩ := (h.splits.append chunk).extend hall.splits hle
  have hdrop : (stream ++ chunk).drop total = stream.drop total ++ chunk :=
    List.drop_append_of_le_length h.splits.total_le
  rw [hdrop] at hnew
  have hend : (stream.drop total ++ chunk).drop (whole - total) = (stream ++ chunk).drop whole := by
    rw [← hdrop, List.drop_drop, Nat.add_sub_cancel' hle]
  refine ⟨new, rfl, ?_⟩
  rw [push_of_more hnew (by rw [hend]; exact hall.more), hend]

/-- The beginning of a stream without malformed parts. -/
theorem Clean.beginning {stream behind : List β} {all : List α} {whole : Nat}
    (h : Clean splitter (stream ++ behind) all whole) : ∃ items total, Clean splitter stream items total := by
  obtain ⟨items, total, hsplits, hexhausted⟩ := @exists_splits _ _ _ splitter stream
  exact ⟨items, total, hsplits, more_of_append h.splits h.more hsplits hexhausted⟩

theorem Clean.unique {stream : List β} {items items' : List α} {total total' : Nat}
    (h : Clean splitter stream items total) (h' : Clean splitter stream items' total') :
    items' = items ∧ total' = total :=
  h.splits.unique_of_exhausted (exhausted_of_more h.more) h'.splits (exhausted_of_more h'.more)

/-- **Streams without malformed parts.** The items are returned in order, and the rest stays in the buffer. -/
theorem feed_of_more {chunks : List (List β)} {buffer : List β} {items : List α} {total : Nat}
    (h : Splits splitter (buffer ++ chunks.flatten) items total)
    (hmore : splitter.front ((buffer ++ chunks.flatten).drop total) = .more)
    (hwaiting : splitter.front buffer = .more) :
    (feed splitter buffer chunks).returned.flatten = items ∧ (feed splitter buffer chunks).verdict = none ∧
      (feed splitter buffer chunks).buffer = (buffer ++ chunks.flatten).drop total := by
  induction chunks generalizing buffer items total with
  | nil =>
      rw [List.flatten_nil, List.append_nil] at h hmore ⊢
      obtain ⟨rfl, rfl⟩ := h.eq_nil hwaiting
      exact ⟨rfl, rfl, rfl⟩
  | cons chunk rest ih =>
      rw [List.flatten_cons, ← List.append_assoc] at h hmore ⊢
      obtain ⟨first, used, hfirst, hexhausted⟩ := @exists_splits _ _ _ splitter (buffer ++ chunk)
      have hfront := more_of_append h hmore hfirst hexhausted
      have hle := (hfirst.append rest.flatten).le_of_exhausted (exhausted_of_more hmore) h
      have hdrop : (buffer ++ chunk ++ rest.flatten).drop used = (buffer ++ chunk).drop used ++ rest.flatten :=
        List.drop_append_of_le_length hfirst.total_le
      have hend : (buffer ++ chunk ++ rest.flatten).drop total =
          ((buffer ++ chunk).drop used ++ rest.flatten).drop (total - used) := by
        rw [← hdrop, List.drop_drop, Nat.add_sub_cancel' hle]
      obtain ⟨others, rfl, hothers⟩ := (hfirst.append rest.flatten).extend h hle
      rw [hdrop] at hothers
      rw [hend] at hmore ⊢
      obtain ⟨hreturned, hverdict, hbuffer⟩ := ih hothers hmore hfront
      rw [feed, push_of_more hfirst hfront]
      refine ⟨?_, hverdict, hbuffer⟩
      rw [List.flatten_cons, hreturned]

/-! ### Malformed streams -/

variable (splitter) in
/-- The first `evidence` elements show that something malformed stands at the front, and no fewer do. -/
structure Malformed (stream : List β) (evidence : Nat) (reason : ε) : Prop where
  bad : splitter.front (stream.take evidence) = .bad reason
  waiting : ∀ shorter < evidence, splitter.front (stream.take shorter) = .more

namespace Malformed

variable {stream : List β} {evidence : Nat} {reason : ε}

theorem evidence_le (h : Malformed splitter stream evidence reason) : evidence ≤ stream.length := by
  by_contra hlt
  have hbad := h.bad
  have hmore := h.waiting stream.length (by omega)
  rw [List.take_of_length_le (by omega)] at hbad hmore
  cases hbad.symm.trans hmore

/-- The evidence is enough whatever follows. -/
theorem front_take (h : Malformed splitter stream evidence reason) {size : Nat} (hsize : evidence ≤ size) :
    splitter.front (stream.take size) = .bad reason := by
  have hbad := splitter.bad_append h.bad ((stream.take size).drop evidence)
  rwa [← Nat.min_eq_left hsize, ← List.take_take, Nat.min_eq_left hsize, List.take_append_drop] at hbad

theorem front (h : Malformed splitter stream evidence reason) : splitter.front stream = .bad reason := by
  have hbad := h.front_take h.evidence_le
  rwa [List.take_length] at hbad

end Malformed

theorem exists_malformed {stream : List β} {reason : ε} (h : splitter.front stream = .bad reason) :
    ∃ evidence, Malformed splitter stream evidence reason := by
  classical
  have hshown : ∃ evidence reason, splitter.front (stream.take evidence) = .bad reason :=
    ⟨stream.length, reason, by rw [List.take_length]; exact h⟩
  obtain ⟨found, hfound⟩ := Nat.find_spec hshown
  have hwhole := splitter.bad_append hfound (stream.drop (Nat.find hshown))
  rw [List.take_append_drop, h] at hwhole
  cases hwhole
  refine ⟨Nat.find hshown, hfound, fun shorter hshorter => ?_⟩
  cases hfront : splitter.front (stream.take shorter) with
  | more => rfl
  | bad other => exact absurd ⟨other, hfront⟩ (Nat.find_min hshown hshorter)
  | item value size =>
      have hitem := splitter.item_append hfront (stream.drop shorter)
      rw [List.take_append_drop, h] at hitem
      cases hitem

/-- The length of the chunks in front of the one that reaches a position. -/
def chunkStart (reached : Nat) : List (List β) → Nat
  | [] => 0
  | chunk :: rest => if reached ≤ chunk.length then 0 else chunk.length + chunkStart (reached - chunk.length) rest

/-- **Malformed streams.** The parser notices, but returns only the items that end before the chunk in which it
does. -/
theorem feed_of_malformed {chunks : List (List β)} {buffer : List β} {items : List α} {total evidence : Nat}
    {reason : ε} (h : Splits splitter (buffer ++ chunks.flatten) items total)
    (hbad : Malformed splitter ((buffer ++ chunks.flatten).drop total) evidence reason)
    (hwaiting : splitter.front buffer = .more) :
    (feed splitter buffer chunks).verdict = some reason ∧
      ∃ size, Splits splitter
          ((buffer ++ chunks.flatten).take (buffer.length + chunkStart (total + evidence - buffer.length) chunks))
          (feed splitter buffer chunks).returned.flatten size ∧
        Exhausted splitter
          ((buffer ++ chunks.flatten).take (buffer.length + chunkStart (total + evidence - buffer.length) chunks))
          size := by
  induction chunks generalizing buffer items total with
  | nil =>
      rw [List.flatten_nil, List.append_nil] at h hbad
      obtain ⟨rfl, rfl⟩ := h.eq_nil hwaiting
      cases hwaiting.symm.trans hbad.front
  | cons chunk rest ih =>
      rw [List.flatten_cons, ← List.append_assoc] at h hbad ⊢
      rw [chunkStart]
      by_cases hreached : total + evidence ≤ (buffer ++ chunk).length
      · -- the malformed part shows in this chunk
        have hsplits : Splits splitter (buffer ++ chunk) items total := by
          have htake := h.take (show total ≤ (buffer ++ chunk).length by omega)
          rwa [List.take_left] at htake
        have hfront : splitter.front ((buffer ++ chunk).drop total) = .bad reason := by
          have hdrop : (buffer ++ chunk).drop total =
              ((buffer ++ chunk ++ rest.flatten).drop total).take ((buffer ++ chunk).length - total) := by
            rw [← List.drop_take, List.take_left]
          rw [hdrop]
          exact hbad.front_take (by omega)
        rw [List.length_append] at hreached
        rw [if_pos (by omega), Nat.add_zero, List.append_assoc, List.take_left, feed, push_of_bad hsplits hfront]
        refine ⟨rfl, 0, .nil buffer, ?_⟩
        apply exhausted_of_more
        rw [List.drop_zero]
        exact hwaiting
      · -- the items of this chunk are returned
        obtain ⟨first, used, hfirst, hexhausted⟩ := @exists_splits _ _ _ splitter (buffer ++ chunk)
        have hle := (hfirst.append rest.flatten).le_of_exhausted (exhausted_of_bad hbad.front) h
        have hused := hfirst.total_le
        have hdrop : (buffer ++ chunk ++ rest.flatten).drop used = (buffer ++ chunk).drop used ++ rest.flatten :=
          List.drop_append_of_le_length hused
        obtain ⟨others, rfl, hothers⟩ := (hfirst.append rest.flatten).extend h hle
        rw [hdrop] at hothers
        have hend : (buffer ++ chunk ++ rest.flatten).drop total =
            ((buffer ++ chunk).drop used ++ rest.flatten).drop (total - used) := by
          rw [← hdrop, List.drop_drop, Nat.add_sub_cancel' hle]
        rw [hend] at hbad
        cases hfront : splitter.front ((buffer ++ chunk).drop used) with
        | item value size => exact absurd hfront (hexhausted value size)
        | bad other =>
            have hwhole := splitter.bad_append hfront rest.flatten
            have hzero : total - used = 0 := by
              generalize total - used = gap at hothers
              cases hothers with
              | nil stream => rfl
              | cons hitem hrest => cases hwhole.symm.trans hitem
            rw [hzero, List.drop_zero] at hbad
            have hshort := hbad.waiting ((buffer ++ chunk).drop used).length (by rw [List.length_drop]; omega)
            rw [List.take_left, hfront] at hshort
            cases hshort
        | more =>
            obtain ⟨hverdict, size, hsplits, hall⟩ := ih hothers hbad hfront
            have hreach : total - used + evidence - ((buffer ++ chunk).drop used).length =
                total + evidence - buffer.length - chunk.length := by
              rw [List.length_drop, List.length_append]
              rw [List.length_append] at hused
              omega
            rw [hreach, ← hdrop] at hsplits hall
            generalize chunkStart (total + evidence - buffer.length - chunk.length) rest = start at hsplits hall ⊢
            have hlength : buffer.length + (chunk.length + start) =
                used + (((buffer ++ chunk).drop used).length + start) := by
              rw [List.length_drop, List.length_append]
              rw [List.length_append] at hused
              omega
            rw [List.length_append] at hreached
            rw [if_neg (by omega), hlength, feed, push_of_more hfirst hfront]
            have hcut : ((buffer ++ chunk ++ rest.flatten).take
                (used + (((buffer ++ chunk).drop used).length + start))).drop used =
                ((buffer ++ chunk ++ rest.flatten).drop used).take (((buffer ++ chunk).drop used).length + start) := by
              rw [List.drop_take, Nat.add_sub_cancel_left]
            rw [← hcut] at hsplits hall
            refine ⟨hverdict, used + size, ?_, ?_⟩
            · exact ((hfirst.append rest.flatten).take (Nat.le_add_right _ _)).concat hsplits
            · rw [Exhausted, ← List.drop_drop]
              exact hall

/-! ### Two ways of cutting a stream -/

variable {stream : List β} {items : List α} {total : Nat}

theorem Splits.eq_of_total_eq {items' : List α} (h : Splits splitter stream items total)
    (h' : Splits splitter stream items' total) : items' = items := by
  obtain ⟨more, rfl, hmore⟩ := h.extend h' (le_refl _)
  rw [Nat.sub_self] at hmore
  generalize hzero : 0 = gap at hmore
  cases hmore with
  | nil stream => exact List.append_nil _
  | cons hfront hrest =>
      have hpos := splitter.size_pos hfront
      omega

theorem Splits.eq_of_items_eq {total' : Nat} (h : Splits splitter stream items total)
    (h' : Splits splitter stream items total') (hle : total ≤ total') : total' = total := by
  obtain ⟨more, hmore, hgap⟩ := h.extend h' hle
  have hnil : more = [] := List.self_eq_append_right.mp hmore
  rw [hnil] at hgap
  generalize hdiff : total' - total = gap at hgap
  cases hgap with
  | nil stream => omega

/-- The items of two prefixes are the same if and only if no item ends behind one of them but not the other. -/
theorem prefixes_eq_iff {left right : Nat} {items' : List α} {total' : Nat}
    (h : Splits splitter (stream.take left) items total) (hall : Exhausted splitter (stream.take left) total)
    (h' : Splits splitter (stream.take right) items' total') (hall' : Exhausted splitter (stream.take right) total')
    (hle : left ≤ right) :
    items = items' ↔ ∀ others size, Splits splitter stream others size → (size ≤ left ↔ size ≤ right) := by
  have hleft : total ≤ left := h.total_le.trans (List.length_take_le _ _)
  have hright : total' ≤ right := h'.total_le.trans (List.length_take_le _ _)
  have hstream : Splits splitter stream items total := by
    have happend := h.append (stream.drop left)
    rwa [List.take_append_drop] at happend
  have hstream' : Splits splitter stream items' total' := by
    have happend := h'.append (stream.drop right)
    rwa [List.take_append_drop] at happend
  have htotal : total ≤ total' := (hstream.take (hleft.trans hle)).le_of_exhausted hall' h'
  constructor
  · rintro rfl others size hothers
    refine ⟨fun hsize => hsize.trans hle, fun hsize => ?_⟩
    have hend := (hothers.take hsize).le_of_exhausted hall' h'
    have hsame := hstream.eq_of_items_eq hstream' htotal
    omega
  · intro hends
    have hend := (hends items' total' hstream').mpr hright
    have hback := (hstream'.take hend).le_of_exhausted hall h
    have hsame : total' = total := by omega
    subst hsame
    exact (hstream.eq_of_total_eq hstream').symm

/-- **Cutting malformed streams.** Two ways of cutting a malformed stream return the same items if and only if no
item ends behind the start of the decisive chunk of one of them but not of the other. -/
theorem feed_eq_iff {chunks chunks' : List (List β)} (hcut : chunks'.flatten = chunks.flatten) {evidence : Nat}
    {reason : ε} (h : Splits splitter chunks.flatten items total)
    (hbad : Malformed splitter (chunks.flatten.drop total) evidence reason) (hwaiting : splitter.front [] = .more) :
    (feed splitter [] chunks).returned.flatten = (feed splitter [] chunks').returned.flatten ↔
      ∀ others size, Splits splitter chunks.flatten others size →
        (size ≤ chunkStart (total + evidence) chunks ↔ size ≤ chunkStart (total + evidence) chunks') := by
  obtain ⟨-, used, hsplits, hall⟩ := @feed_of_malformed _ _ _ splitter chunks [] _ _ _ _ h hbad hwaiting
  rw [← hcut] at h hbad
  obtain ⟨-, used', hsplits', hall'⟩ := @feed_of_malformed _ _ _ splitter chunks' [] _ _ _ _ h hbad hwaiting
  rw [List.nil_append, List.length_nil, Nat.zero_add, Nat.sub_zero] at hsplits hall hsplits' hall'
  rw [hcut] at hsplits' hall'
  rcases Nat.le_total (chunkStart (total + evidence) chunks) (chunkStart (total + evidence) chunks') with hle | hle
  · exact prefixes_eq_iff hsplits hall hsplits' hall' hle
  · rw [eq_comm, prefixes_eq_iff hsplits' hall' hsplits hall hle]
    exact forall₃_congr fun _ _ _ => Iff.comm

/-- **Items in front of something malformed.** All of them are returned if and only if the decisive chunk starts
behind them. -/
theorem feed_complete_iff {chunks : List (List β)} {evidence : Nat} {reason : ε}
    (h : Splits splitter chunks.flatten items total)
    (hbad : Malformed splitter (chunks.flatten.drop total) evidence reason) (hwaiting : splitter.front [] = .more) :
    (feed splitter [] chunks).returned.flatten = items ↔ total ≤ chunkStart (total + evidence) chunks := by
  obtain ⟨-, size, hsplits, hall⟩ := @feed_of_malformed _ _ _ splitter chunks [] _ _ _ _ h hbad hwaiting
  rw [List.nil_append, List.length_nil, Nat.zero_add, Nat.sub_zero] at hsplits hall
  have hsize : size ≤ chunkStart (total + evidence) chunks := hsplits.total_le.trans (List.length_take_le _ _)
  have hstream := hsplits.append (chunks.flatten.drop (chunkStart (total + evidence) chunks))
  rw [List.take_append_drop] at hstream
  have hle := hstream.le_of_exhausted (exhausted_of_bad hbad.front) h
  constructor
  · intro hitems
    rw [hitems] at hstream
    have hsame := hstream.eq_of_items_eq h hle
    omega
  · intro hstart
    have hback := (h.take hstart).le_of_exhausted hall hsplits
    have hsame : size = total := by omega
    subst hsame
    exact h.eq_of_total_eq hstream

end ChunkedParser
