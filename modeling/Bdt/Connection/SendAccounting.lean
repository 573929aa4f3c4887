import Bdt.Connection.SendQueue

/-!
# The accounting of the send queue

`Parted` says how the blocks of the two lists lie in the stream: each list is in order, and no two
blocks overlap. `SendContext.Counted` adds that the counters are the sums of the lengths. Every
operation keeps both. The loop of `SendQueueConfirmRange` is the one with an argument: it takes the
blocks of the two lists in the order of their start positions, so every block it has kept lies
before every block it has not looked at yet (`SendContext.Walk`).
-/

namespace Bdt

open Base List

namespace SendQueueSendBlock

/-- The first block ends before the second one starts. -/
def Before (left right : SendQueueSendBlock) : Prop :=
  left.endStreamPos ≤ right.startStreamPos

/-- The two blocks do not overlap. -/
def Apart (left right : SendQueueSendBlock) : Prop :=
  left.Before right ∨ right.Before left

/-- The block has at least one byte. -/
def Proper (block : SendQueueSendBlock) : Prop :=
  block.startStreamPos < block.endStreamPos

variable {left right : SendQueueSendBlock}

theorem Apart.symm (h : left.Apart right) : right.Apart left :=
  Or.symm h

theorem Before.trans {middle : SendQueueSendBlock} (hl : left.Before middle)
    (hm : middle.Proper) (hr : middle.Before right) : left.Before right := by
  unfold Before Proper at *
  omega

/-- Of two blocks that do not overlap, the one that starts first ends before the other. -/
theorem Apart.before_of_start_le (h : left.Apart right) (hright : right.Proper)
    (hle : left.startStreamPos ≤ right.startStreamPos) : left.Before right := by
  rcases h with h | h
  · exact h
  · unfold Before Proper at *
    omega

theorem len_sendTime (block : SendQueueSendBlock) (now : Nat) :
    ({ block with sendTime := now } : SendQueueSendBlock).len = block.len := rfl

end SendQueueSendBlock

open SendQueueSendBlock

/-- The number of bytes in a list of blocks. -/
def totalLen (blocks : List SendQueueSendBlock) : Nat :=
  (blocks.map SendQueueSendBlock.len).sum

@[simp] theorem totalLen_nil : totalLen [] = 0 := rfl

@[simp] theorem totalLen_cons (block : SendQueueSendBlock) (blocks : List SendQueueSendBlock) :
    totalLen (block :: blocks) = block.len + totalLen blocks := by
  simp [totalLen]

@[simp] theorem totalLen_append (left right : List SendQueueSendBlock) :
    totalLen (left ++ right) = totalLen left + totalLen right := by
  simp [totalLen]

theorem totalLen_perm {left right : List SendQueueSendBlock} (h : left.Perm right) :
    totalLen left = totalLen right :=
  (h.map _).sum_nat

/-- The two lists of blocks are in order and no two of their blocks overlap. -/
structure Parted (flight lost : List SendQueueSendBlock) : Prop where
  proper : ∀ b ∈ flight ++ lost, b.Proper
  flight_sorted : flight.Pairwise Before
  lost_sorted : lost.Pairwise Before
  apart : ∀ f ∈ flight, ∀ l ∈ lost, f.Apart l

namespace Parted

variable {flight lost : List SendQueueSendBlock} {block : SendQueueSendBlock}

theorem nil : Parted [] [] :=
  ⟨by simp, .nil, .nil, by simp⟩

theorem swap (h : Parted flight lost) : Parted lost flight where
  proper := fun b hb => h.proper b (by simpa [or_comm] using hb)
  flight_sorted := h.lost_sorted
  lost_sorted := h.flight_sorted
  apart := fun f hf l hl => (h.apart l hl f hf).symm

theorem flight_cons (h : Parted (block :: flight) lost) : Parted flight lost where
  proper := fun b hb => h.proper b (by simp_all)
  flight_sorted := h.flight_sorted.of_cons
  lost_sorted := h.lost_sorted
  apart := fun f hf l hl => h.apart f (by simp [hf]) l hl

theorem lost_cons (h : Parted flight (block :: lost)) : Parted flight lost :=
  h.swap.flight_cons.swap

/-- A block that lies before all the others may leave the flight list and every block stays after
it. -/
theorem before_rest (h : Parted (block :: flight) lost)
    (hle : ∀ l ∈ lost, block.startStreamPos ≤ l.startStreamPos) :
    ∀ r ∈ flight ++ lost, block.Before r := by
  intro r hr
  rcases mem_append.mp hr with hr | hr
  · exact (pairwise_cons.mp h.flight_sorted).1 r hr
  · exact (h.apart block (by simp) r hr).before_of_start_le (h.proper r (by simp [hr])) (hle r hr)

variable (h : Parted flight lost)
include h

theorem flight_snoc (hb : block.Proper)
    (hbefore : ∀ k ∈ flight ++ lost, k.Before block) : Parted (flight ++ [block]) lost where
  proper := by
    intro b hmem
    rcases mem_append.mp hmem with hmem | hmem
    · rcases mem_append.mp hmem with hmem | hmem
      · exact h.proper b (by simp [hmem])
      · exact (mem_singleton.mp hmem) ▸ hb
    · exact h.proper b (by simp [hmem])
  flight_sorted := pairwise_append.mpr
    ⟨h.flight_sorted, pairwise_singleton _ _, fun k hk r hr =>
      (mem_singleton.mp hr) ▸ hbefore k (by simp [hk])⟩
  lost_sorted := h.lost_sorted
  apart := by
    intro f hf l hl
    rcases mem_append.mp hf with hf | hf
    · exact h.apart f hf l hl
    · exact (mem_singleton.mp hf) ▸ .inr (hbefore l (by simp [hl]))

theorem lost_snoc (hb : block.Proper)
    (hbefore : ∀ k ∈ flight ++ lost, k.Before block) : Parted flight (lost ++ [block]) :=
  (h.swap.flight_snoc hb fun k hk => hbefore k (by simpa [or_comm] using hk)).swap

/-- Lists that lie before two others may be put in front of them. -/
theorem append {flight' lost' : List SendQueueSendBlock}
    (h' : Parted flight' lost') (hbefore : ∀ k ∈ flight ++ lost, ∀ r ∈ flight' ++ lost', k.Before r) :
    Parted (flight ++ flight') (lost ++ lost') where
  proper := by
    intro b hb
    have hb' : b ∈ flight ++ lost ∨ b ∈ flight' ++ lost' := by
      simp only [mem_append] at hb ⊢
      tauto
    exact hb'.elim (h.proper b) (h'.proper b)
  flight_sorted := pairwise_append.mpr ⟨h.flight_sorted, h'.flight_sorted,
    fun k hk r hr => hbefore k (by simp [hk]) r (by simp [hr])⟩
  lost_sorted := pairwise_append.mpr ⟨h.lost_sorted, h'.lost_sorted,
    fun k hk r hr => hbefore k (by simp [hk]) r (by simp [hr])⟩
  apart := by
    intro f hf l hl
    rcases mem_append.mp hf with hf | hf <;> rcases mem_append.mp hl with hl | hl
    · exact h.apart f hf l hl
    · exact .inl (hbefore f (by simp [hf]) l (by simp [hl]))
    · exact .inr (hbefore l (by simp [hl]) f (by simp [hf]))
    · exact h'.apart f hf l hl

/-- Any two blocks of the two lists are one block or do not overlap. -/
theorem eq_or_apart : ∀ b ∈ flight ++ lost, ∀ c ∈ flight ++ lost, b = c ∨ b.Apart c := by
  have hsorted : ∀ {blocks : List SendQueueSendBlock}, blocks.Pairwise Before →
      ∀ b ∈ blocks, ∀ c ∈ blocks, b = c ∨ b.Apart c := by
    intro blocks hs
    induction hs with
    | nil => simp
    | cons hbefore _ ih =>
      intro b hb c hc
      rcases mem_cons.mp hb with hb | hb <;> rcases mem_cons.mp hc with hc | hc
      · exact .inl (hb.trans hc.symm)
      · exact .inr (.inl (hb ▸ hbefore c hc))
      · exact .inr (.inr (hc ▸ hbefore b hb))
      · exact ih b hb c hc
  intro b hb c hc
  rcases mem_append.mp hb with hb | hb <;> rcases mem_append.mp hc with hc | hc
  · exact hsorted h.flight_sorted b hb c hc
  · exact .inr (h.apart b hb c hc)
  · exact .inr (h.apart c hc b hb).symm
  · exact hsorted h.lost_sorted b hb c hc

/-- The ranges of all blocks, as one list, do not overlap pairwise. -/
theorem pairwise_apart : (flight ++ lost).Pairwise Apart :=
  pairwise_append.mpr ⟨h.flight_sorted.imp fun h => Or.inl h,
    h.lost_sorted.imp fun h => Or.inl h, h.apart⟩

end Parted

/-! ## Counters -/

namespace SendContext

section

variable (ctx : SendContext) (len : Nat)

@[simp] theorem subFlight_flightBlocks :
    (ctx.subFlight len).flightBlocks = ctx.flightBlocks := rfl

@[simp] theorem subFlight_lostBlocks :
    (ctx.subFlight len).lostBlocks = ctx.lostBlocks := rfl

@[simp] theorem subFlight_lost :
    (ctx.subFlight len).lost = ctx.lost := rfl

/-- Taking bytes that are in flight out of the flight counter does not wrap. -/
theorem subFlight_of_le (hle : len ≤ ctx.flight)
    (hlt : ctx.flight < 2 ^ 32) : (ctx.subFlight len).flight = ctx.flight - len ∧
      (ctx.subFlight len).underflow = ctx.underflow := by
  constructor
  · rw [subFlight, word_of_lt (by omega), wordSub_of_le hle]
  · simp only [subFlight, Nat.not_lt.mpr hle, decide_false, Bool.or_false]

end

theorem subLost_underflow (ctx : SendContext) {len : Nat} (hle : len ≤ ctx.lost) :
    (ctx.subLost len).underflow = ctx.underflow := by
  simp only [subLost, Nat.not_lt.mpr hle, decide_false, Bool.or_false]

/-- The counters are the sums of the lengths of the blocks, none of them wrapped, and the blocks do
not overlap. -/
structure Counted (ctx : SendContext) : Prop where
  flight_eq : ctx.flight = totalLen ctx.flightBlocks
  lost_eq : ctx.lost = totalLen ctx.lostBlocks
  small : ctx.flight + ctx.lost < 2 ^ 32
  underflow : ctx.underflow = false
  parted : Parted ctx.flightBlocks ctx.lostBlocks

/-- All blocks of a context. -/
def blocks (ctx : SendContext) : List SendQueueSendBlock :=
  ctx.flightBlocks ++ ctx.lostBlocks

/-- The acknowledgement positions of a context never pass the largest one. -/
structure AckOrdered (ctx : SendContext) : Prop where
  latest_le : ctx.latestAckStreamPos ≤ ctx.ackStreamPos
  prev_le : ctx.prevDupAckStreamPos ≤ ctx.ackStreamPos

/-! ## The walk of `SendQueueConfirmRange` -/

variable {fs ls : List SendQueueSendBlock} {block : SendQueueSendBlock}

variable {flightRest lostRest : List SendQueueSendBlock} {bFlight : Bool}
  {sackArray : Option (List BdtStreamRange)}

/-- The block looked at next is the first of its list and starts before all the blocks that are
left. -/
theorem nextBlock_cases
    (h : nextBlock fs ls = some (block, bFlight, flightRest, lostRest)) (hp : Parted fs ls) :
    (bFlight = true ∧ fs = block :: flightRest ∧ ls = lostRest ∨
      bFlight = false ∧ ls = block :: lostRest ∧ fs = flightRest) ∧
    ∀ r ∈ flightRest ++ lostRest, block.Before r := by
  -- the flight block is looked at when it starts before the first lost block
  have hflight : ∀ {fs ls : List SendQueueSendBlock}, Parted (block :: fs) ls →
      (∀ l, ls.head? = some l → block.startStreamPos ≤ l.startStreamPos) →
      ∀ r ∈ fs ++ ls, block.Before r := by
    intro fs ls hp hhead
    refine hp.before_rest ?_
    intro l hl
    cases ls with
    | nil => simp at hl
    | cons a =>
      have ha := hhead a rfl
      rcases mem_cons.mp hl with rfl | hl
      · exact ha
      have hal : a.Before l := (pairwise_cons.mp hp.lost_sorted).1 l hl
      have hproper : a.Proper := hp.proper a (by simp)
      unfold Before Proper at *
      omega
  cases fs with
  | nil =>
    cases ls with
    | nil => simp [nextBlock] at h
    | cons =>
      obtain ⟨rfl, rfl, rfl, rfl⟩ := h
      exact ⟨.inr ⟨rfl, rfl, rfl⟩, by simpa using hflight hp.swap (by simp)⟩
  | cons =>
    cases ls with
    | nil =>
      obtain ⟨rfl, rfl, rfl, rfl⟩ := h
      exact ⟨.inl ⟨rfl, rfl, rfl⟩, hflight hp (by simp)⟩
    | cons =>
      simp only [nextBlock] at h
      split at h <;> simp only [Option.some.injEq, Prod.mk.injEq] at h <;>
        obtain ⟨rfl, rfl, rfl, rfl⟩ := h
      case isTrue hlt =>
        refine ⟨.inl ⟨rfl, rfl, rfl⟩, hflight hp ?_⟩
        rintro _ ⟨rfl⟩
        omega
      case isFalse hlt =>
      refine ⟨.inr ⟨rfl, rfl, rfl⟩, ?_⟩
      intro r hr
      refine hflight hp.swap ?_ r (by simp only [mem_append] at hr ⊢; tauto)
      rintro _ ⟨rfl⟩
      omega

/-- How the block looked at next was taken off its list. -/
structure Taken (fs ls : List SendQueueSendBlock) (block : SendQueueSendBlock) (bFlight : Bool)
    (flightRest lostRest : List SendQueueSendBlock) : Prop where
  parted : Parted flightRest lostRest
  before : ∀ r ∈ flightRest ++ lostRest, block.Before r
  mem_iff : ∀ r, r ∈ fs ++ ls ↔ r = block ∨ r ∈ flightRest ++ lostRest
  flight_len : totalLen fs = (bif bFlight then block.len else 0) + totalLen flightRest
  lost_len : totalLen ls = (bif bFlight then 0 else block.len) + totalLen lostRest

theorem nextBlock_taken
    (h : nextBlock fs ls = some (block, bFlight, flightRest, lostRest)) (hp : Parted fs ls) :
    Taken fs ls block bFlight flightRest lostRest := by
  obtain ⟨⟨rfl, rfl, rfl⟩ | ⟨rfl, rfl, rfl⟩, hbefore⟩ := nextBlock_cases h hp
  · exact ⟨hp.flight_cons, hbefore, by simp, by simp, by simp⟩
  · exact ⟨hp.lost_cons, hbefore, fun r => by simp only [mem_append, mem_cons]; tauto,
      by simp, by simp⟩

theorem nextBlock_none (h : nextBlock fs ls = none) : fs = [] ∧ ls = [] := by
  cases fs <;> cases ls <;> simp [nextBlock] at h ⊢
  split at h <;> simp at h

theorem nextBlock_length (h : nextBlock fs ls = some (block, bFlight, flightRest, lostRest)) :
    fs.length + ls.length = flightRest.length + lostRest.length + 1 := by
  cases fs <;> cases ls <;> simp only [nextBlock] at h
  case nil.nil => cases h
  case cons.cons => split at h <;> cases h <;> simp <;> omega
  all_goals cases h; simp

/-- An induction rule for the loop of `SendQueueConfirmRange`: what the three ways to deal with a
block preserve holds when the loop stops. -/
theorem confirmLoop_rule
    (keep : SendContext → List SendQueueSendBlock → List SendQueueSendBlock → Nat → Prop)
    (post : SendContext → Nat → Prop)
    (hstep : ∀ ctx fs ls out block bFlight flightRest lostRest state next, keep ctx fs ls out →
      nextBlock fs ls = some (block, bFlight, flightRest, lostRest) →
      ctx.checkBlock block sackArray = (state, next) →
      match state with
      | .outOfRange => post (next.putBack fs ls) out
      | .ack => keep (next.ackBlock block bFlight) flightRest lostRest (word 32 (out + block.len))
      | .prev => keep (next.keepBlock block bFlight) flightRest lostRest out
      | .lost => keep (next.loseBlock block bFlight) flightRest lostRest out)
    (hend : ∀ ctx out, keep ctx [] [] out → post (ctx.putBack [] []) out)
    {count : Nat} {ctx : SendContext} {out : Nat}
    (hcount : count = fs.length + ls.length) (hkeep : keep ctx fs ls out) :
    post (confirmLoop sackArray count ctx fs ls out).1
      (confirmLoop sackArray count ctx fs ls out).2 := by
  induction count generalizing ctx fs ls out with
  | zero =>
    obtain rfl : fs = [] := eq_nil_of_length_eq_zero (by omega)
    obtain rfl : ls = [] := eq_nil_of_length_eq_zero (by omega)
    exact hend ctx out hkeep
  | succ count ih =>
    unfold confirmLoop
    cases hn : nextBlock fs ls with
    | none =>
      obtain ⟨rfl, rfl⟩ := nextBlock_none hn
      exact hend ctx out hkeep
    | some next =>
      obtain ⟨block, bFlight, flightRest, lostRest⟩ := next
      have hlen : count = flightRest.length + lostRest.length := by
        have := nextBlock_length hn
        omega
      cases hc : ctx.checkBlock block sackArray with
      | mk state next =>
        have h := hstep ctx fs ls out block bFlight flightRest lostRest state next hkeep hn hc
        simp only [hc]
        cases state with
        | outOfRange => exact h
        | ack => exact ih hlen h
        | prev => exact ih hlen h
        | lost => exact ih hlen h

/-! The counters after each of the three ways to deal with a block. -/

/-- Acknowledging a block takes its length off the counter of its list. -/
theorem ackBlock_counters (ctx : SendContext) (block : SendQueueSendBlock) (bFlight : Bool)
    (hflight : (bif bFlight then block.len else 0) ≤ ctx.flight)
    (hlost : (bif bFlight then 0 else block.len) ≤ ctx.lost) (hlt : ctx.flight < 2 ^ 32) :
    (ctx.ackBlock block bFlight).flight = ctx.flight - (bif bFlight then block.len else 0) ∧
    (ctx.ackBlock block bFlight).lost = ctx.lost - (bif bFlight then 0 else block.len) ∧
    (ctx.ackBlock block bFlight).underflow = ctx.underflow := by
  cases bFlight with
  | true =>
    obtain ⟨hsub, hunder⟩ := subFlight_of_le ctx _ hflight hlt
    exact ⟨hsub, rfl, hunder⟩
  | false => exact ⟨rfl, rfl, subLost_underflow _ hlost⟩

/-- Marking a block lost moves its length from the counter of its list to the lost counter. -/
theorem loseBlock_counters (ctx : SendContext) (block : SendQueueSendBlock) (bFlight : Bool)
    (hflight : (bif bFlight then block.len else 0) ≤ ctx.flight) (hlt : ctx.flight < 2 ^ 32) :
    (ctx.loseBlock block bFlight).flight = ctx.flight - (bif bFlight then block.len else 0) ∧
    (ctx.loseBlock block bFlight).lost = ctx.lost + (bif bFlight then block.len else 0) ∧
    (ctx.loseBlock block bFlight).underflow = ctx.underflow := by
  cases bFlight with
  | true =>
    obtain ⟨hsub, hunder⟩ := subFlight_of_le { ctx with lostBlocks := _ } _ hflight hlt
    exact ⟨hsub, rfl, hunder⟩
  | false => exact ⟨rfl, rfl, rfl⟩

/-- No block that was acknowledged is about to be marked lost by a duplicate ack. -/
def DupSafe (ctx : SendContext) : Prop :=
  ctx.dupAckTimes = 4 → ∀ b ∈ ctx.blocks, ctx.ackStreamPos < b.endStreamPos

/-- What the loop keeps: `ctx` holds the blocks that stay, `fs` and `ls` are still to be looked at,
and `out` bytes are gone from those of the context `before` the loop. -/
structure Walk (before ctx : SendContext) (fs ls : List SendQueueSendBlock) (out : Nat) :
    Prop where
  ackStreamPos : ctx.ackStreamPos = before.ackStreamPos
  streamPos : ctx.streamPos = before.streamPos
  ordered : ctx.AckOrdered
  flight_eq : ctx.flight = totalLen ctx.flightBlocks + totalLen fs
  lost_eq : ctx.lost = totalLen ctx.lostBlocks + totalLen ls
  total : out + (ctx.flight + ctx.lost) = before.flight + before.lost
  underflow : ctx.underflow = false
  kept : Parted ctx.flightBlocks ctx.lostBlocks
  rest : Parted fs ls
  ahead : ∀ k ∈ ctx.blocks, ∀ r ∈ fs ++ ls, k.Before r
  known : ∀ b ∈ ctx.blocks ++ (fs ++ ls), b ∈ before.blocks
  above : before.DupSafe → (∀ k ∈ ctx.blocks, ctx.ackStreamPos < k.endStreamPos) ∧
    (ctx.dupAckTimes = 4 → ∀ r ∈ fs ++ ls, ctx.ackStreamPos < r.endStreamPos)

/-- Looking at a block changes at most the duplicate-ack bookkeeping. -/
theorem checkBlock_cases {ctx next : SendContext}
    {state : SendBlockCheckState}
    (h : ctx.checkBlock block sackArray = (state, next)) :
    (ctx.dupAckTimes = 4 ∧ block.startStreamPos = ctx.latestAckStreamPos ∧ state = .lost ∧
      next = { ctx with prevDupAckStreamPos := ctx.latestAckStreamPos, latestAckStreamPos := 0,
                        dupAckTimes := 0 }) ∨
    (¬ (block.startStreamPos = ctx.latestAckStreamPos ∧ ctx.dupAckTimes = 4) ∧
      state = checkBlockStateByAck block ctx.ackStreamPos sackArray ∧ next = ctx) := by
  unfold checkBlock at h
  split at h <;> simp only [Prod.mk.injEq] at h <;> obtain ⟨rfl, rfl⟩ := h
  case isTrue hd => exact .inl ⟨hd.2, hd.1, rfl, rfl⟩
  case isFalse hd => exact .inr ⟨hd, rfl, rfl⟩

/-- A block that the ack covers is acknowledged, whatever the sack array says. -/
theorem ack_of_end_le {ackStreamPos : Nat}
    (h : block.endStreamPos ≤ ackStreamPos) :
    checkBlockStateByAck block ackStreamPos sackArray = .ack := by
  simp [checkBlockStateByAck, h]

namespace Walk

variable {before ctx next : SendContext} {fs ls flightRest lostRest : List SendQueueSendBlock}
  {block : SendQueueSendBlock} {out : Nat} {bFlight : Bool} {state : SendBlockCheckState}
  {sackArray : Option (List BdtStreamRange)}

variable (h : Walk before ctx fs ls out)
include h

theorem check
    (hc : ctx.checkBlock block sackArray = (state, next)) : Walk before next fs ls out := by
  rcases checkBlock_cases hc with ⟨_, _, _, rfl⟩ | ⟨_, _, rfl⟩
  · exact { h with
      ordered := ⟨Nat.zero_le _, h.ordered.latest_le⟩
      above := fun hd => ⟨(h.above hd).1, fun h4 => nomatch h4⟩ }
  · exact h

theorem block_above (hd : before.DupSafe)
    (hmem : block ∈ fs ++ ls) (hc : ctx.checkBlock block sackArray = (state, next))
    (hstate : state ≠ .ack) : next.ackStreamPos < block.endStreamPos := by
  rcases checkBlock_cases hc with ⟨h4, _, _, rfl⟩ | ⟨_, rfl, rfl⟩
  · exact (h.above hd).2 h4 block hmem
  · by_contra hle
    exact hstate (ack_of_end_le (by omega))

theorem ack (hsmall : before.flight + before.lost < 2 ^ 32)
    (ht : Taken fs ls block bFlight flightRest lostRest) :
    Walk before (ctx.ackBlock block bFlight) flightRest lostRest (word 32 (out + block.len)) := by
  have hsum : (bif bFlight then block.len else 0) + (bif bFlight then 0 else block.len) =
      block.len := by
    cases bFlight <;> simp
  have ⟨hfs, hls⟩ := (⟨ht.flight_len, ht.lost_len⟩ : _ ∧ _)
  have ⟨hf, hl, htot⟩ := (⟨h.flight_eq, h.lost_eq, h.total⟩ : _ ∧ _ ∧ _)
  obtain ⟨hflight, hlost, hunder⟩ := ackBlock_counters ctx block bFlight
    (by omega) (by omega) (by omega)
  have hsame : (ctx.ackBlock block bFlight).flightBlocks = ctx.flightBlocks ∧
      (ctx.ackBlock block bFlight).lostBlocks = ctx.lostBlocks ∧
      (ctx.ackBlock block bFlight).blocks = ctx.blocks := by
    cases bFlight <;> exact ⟨rfl, rfl, rfl⟩
  exact {
    ackStreamPos := by cases bFlight <;> exact h.ackStreamPos
    streamPos := by cases bFlight <;> exact h.streamPos
    ordered := by cases bFlight <;> exact ⟨h.ordered.latest_le, h.ordered.prev_le⟩
    flight_eq := by rw [hflight, hsame.1]; omega
    lost_eq := by rw [hlost, hsame.2.1]; omega
    total := by rw [hflight, hlost, word_of_lt (by omega)]; omega
    underflow := hunder.trans h.underflow
    kept := by rw [hsame.1, hsame.2.1]; exact h.kept
    rest := ht.parted
    ahead := by
      rw [hsame.2.2]
      exact fun k hk r hr => h.ahead k hk r ((ht.mem_iff r).mpr (.inr hr))
    known := by
      rw [hsame.2.2]
      intro b hb
      refine h.known b (mem_append.mpr ?_)
      exact (mem_append.mp hb).imp id fun hr => (ht.mem_iff b).mpr (.inr hr)
    above := by
      intro hd
      rw [hsame.2.2]
      refine ⟨?_, fun h4 r hr => ?_⟩
      · cases bFlight <;> exact (h.above hd).1
      · cases bFlight <;> exact (h.above hd).2 h4 r ((ht.mem_iff r).mpr (.inr hr)) }

/-- A block that stays, on either list, is one more block before those not looked at. -/
theorem stay (ht : Taken fs ls block bFlight flightRest lostRest)
    (hsame : next.ackStreamPos = ctx.ackStreamPos ∧ next.streamPos = ctx.streamPos ∧
      next.latestAckStreamPos = ctx.latestAckStreamPos ∧
      next.prevDupAckStreamPos = ctx.prevDupAckStreamPos ∧ next.dupAckTimes = ctx.dupAckTimes)
    (hflight : next.flight = totalLen next.flightBlocks + totalLen flightRest)
    (hlost : next.lost = totalLen next.lostBlocks + totalLen lostRest)
    (htotal : next.flight + next.lost = ctx.flight + ctx.lost)
    (hunder : next.underflow = ctx.underflow)
    (hkept : Parted next.flightBlocks next.lostBlocks)
    (hmem : ∀ r, r ∈ next.blocks ↔ r ∈ ctx.blocks ∨ r = block)
    (habove : before.DupSafe → ctx.ackStreamPos < block.endStreamPos) :
    Walk before next flightRest lostRest out := by
  obtain ⟨hack, hpos, hlatest, hprev, hdup⟩ := hsame
  have hblock : block ∈ fs ++ ls := (ht.mem_iff block).mpr (.inl rfl)
  have hrest : ∀ r ∈ flightRest ++ lostRest, r ∈ fs ++ ls :=
    fun r hr => (ht.mem_iff r).mpr (.inr hr)
  exact {
    ackStreamPos := hack.trans h.ackStreamPos
    streamPos := hpos.trans h.streamPos
    ordered := ⟨by rw [hlatest, hack]; exact h.ordered.latest_le,
      by rw [hprev, hack]; exact h.ordered.prev_le⟩
    flight_eq := hflight
    lost_eq := hlost
    total := by rw [htotal]; exact h.total
    underflow := hunder.trans h.underflow
    kept := hkept
    rest := ht.parted
    ahead := by
      intro k hk r hr
      rcases (hmem k).mp hk with hk | rfl
      · exact h.ahead k hk r (hrest r hr)
      · exact ht.before r hr
    known := by
      intro b hb
      refine h.known b (mem_append.mpr ?_)
      rcases mem_append.mp hb with hb | hb
      · rcases (hmem b).mp hb with hb | rfl
        · exact .inl hb
        · exact .inr hblock
      · exact .inr (hrest b hb)
    above := by
      intro hd
      rw [hack, hdup]
      refine ⟨fun k hk => ?_, fun h4 r hr => (h.above hd).2 h4 r (hrest r hr)⟩
      rcases (hmem k).mp hk with hk | rfl
      · exact (h.above hd).1 k hk
      · exact habove hd }

theorem keep (ht : Taken fs ls block bFlight flightRest lostRest)
    (habove : before.DupSafe → ctx.ackStreamPos < block.endStreamPos) :
    Walk before (ctx.keepBlock block bFlight) flightRest lostRest out := by
  have hblock : block ∈ fs ++ ls := (ht.mem_iff block).mpr (.inl rfl)
  have hbefore : ∀ k ∈ ctx.blocks, k.Before block := fun k hk => h.ahead k hk block hblock
  have ⟨hf, hl, hfs, hls⟩ := (⟨h.flight_eq, h.lost_eq, ht.flight_len, ht.lost_len⟩ : _ ∧ _ ∧ _ ∧ _)
  cases bFlight with
  | true =>
    simp only [cond_true] at hfs hls
    refine h.stay ht ⟨rfl, rfl, rfl, rfl, rfl⟩ ?_ ?_ rfl rfl
      (h.kept.flight_snoc (h.rest.proper block hblock) hbefore) ?_ habove
    · simp only [keepBlock, if_pos, totalLen_append, totalLen_cons, totalLen_nil]
      omega
    · simp only [keepBlock, if_pos]
      omega
    · simp only [keepBlock, blocks, if_pos, mem_append, mem_singleton]
      tauto
  | false =>
    simp only [cond_false] at hfs hls
    refine h.stay ht ⟨rfl, rfl, rfl, rfl, rfl⟩ ?_ ?_ rfl rfl
      (h.kept.lost_snoc (h.rest.proper block hblock) hbefore) ?_ habove
    · simp only [keepBlock, Bool.false_eq_true, if_false]
      omega
    · simp only [keepBlock, Bool.false_eq_true, if_false, totalLen_append, totalLen_cons,
        totalLen_nil]
      omega
    · simp [keepBlock, blocks, or_assoc]

theorem lose (hsmall : before.flight + before.lost < 2 ^ 32)
    (ht : Taken fs ls block bFlight flightRest lostRest)
    (habove : before.DupSafe → ctx.ackStreamPos < block.endStreamPos) :
    Walk before (ctx.loseBlock block bFlight) flightRest lostRest out := by
  have hblock : block ∈ fs ++ ls := (ht.mem_iff block).mpr (.inl rfl)
  have hbefore : ∀ k ∈ ctx.blocks, k.Before block := fun k hk => h.ahead k hk block hblock
  have ⟨hf, hl, hfs, hls⟩ := (⟨h.flight_eq, h.lost_eq, ht.flight_len, ht.lost_len⟩ : _ ∧ _ ∧ _ ∧ _)
  have hsum : (bif bFlight then block.len else 0) + (bif bFlight then 0 else block.len) =
      block.len := by
    cases bFlight <;> simp
  have htot := h.total
  obtain ⟨hflight, hlost, hunder⟩ := loseBlock_counters ctx block bFlight
    (by omega) (by omega)
  have hlists : (ctx.loseBlock block bFlight).flightBlocks = ctx.flightBlocks ∧
      (ctx.loseBlock block bFlight).lostBlocks = ctx.lostBlocks ++ [block] := by
    cases bFlight <;> exact ⟨rfl, rfl⟩
  refine h.stay ht (by cases bFlight <;> exact ⟨rfl, rfl, rfl, rfl, rfl⟩) ?_ ?_ (by omega) hunder
    ?_ ?_ habove
  · rw [hlists.1]
    omega
  · rw [hlists.2, totalLen_append, totalLen_cons, totalLen_nil]
    omega
  · rw [hlists.1, hlists.2]
    exact h.kept.lost_snoc (h.rest.proper block hblock) hbefore
  · simp [blocks, hlists, or_assoc]

/-- When the loop stops, the blocks it has not looked at go back behind those that stay. -/
theorem putBack (hsmall : before.flight + before.lost < 2 ^ 32) : (ctx.putBack fs ls).Counted := by
  have ⟨hf, hl, htot⟩ := (⟨h.flight_eq, h.lost_eq, h.total⟩ : _ ∧ _ ∧ _)
  exact {
    flight_eq := by simp only [SendContext.putBack, totalLen_append]; omega
    lost_eq := by simp only [SendContext.putBack, totalLen_append]; omega
    small := by simp only [SendContext.putBack]; omega
    underflow := h.underflow
    parted := h.kept.append h.rest h.ahead }

end Walk

/-- `SendQueueConfirmRange` past its early return: the counters stay right, blocks are only removed
or moved, and `outAcked` counts the bytes removed. -/
structure Confirmed (before after : SendContext) (outAcked : Nat) : Prop where
  counted : after.Counted
  ordered : after.AckOrdered
  streamPos : after.streamPos = before.streamPos
  total : outAcked + (after.flight + after.lost) = before.flight + before.lost
  known : ∀ b ∈ after.blocks, b ∈ before.blocks

/-- The context that the loop of `SendQueueConfirmRange` starts from, with its blocks. -/
def acked (ctx : SendContext) (ackStreamPos : Nat) : SendContext :=
  { ctx.countDupAck ackStreamPos with
    ackStreamPos := max (ctx.countDupAck ackStreamPos).ackStreamPos ackStreamPos }

/-- Counting an ack changes neither the blocks nor their counters. -/
theorem acked_fields (ctx : SendContext) (ackStreamPos : Nat) :
    (ctx.acked ackStreamPos).ackStreamPos = max ctx.ackStreamPos ackStreamPos ∧
    (ctx.acked ackStreamPos).streamPos = ctx.streamPos ∧
    (ctx.acked ackStreamPos).flightBlocks = ctx.flightBlocks ∧
    (ctx.acked ackStreamPos).lostBlocks = ctx.lostBlocks ∧
    (ctx.acked ackStreamPos).flight = ctx.flight ∧
    (ctx.acked ackStreamPos).lost = ctx.lost ∧
    (ctx.acked ackStreamPos).underflow = ctx.underflow := by
  simp only [acked, countDupAck]
  split
  · split
    · exact ⟨rfl, rfl, rfl, rfl, rfl, rfl, rfl⟩
    · split <;> exact ⟨rfl, rfl, rfl, rfl, rfl, rfl, rfl⟩
  · exact ⟨rfl, rfl, rfl, rfl, rfl, rfl, rfl⟩

theorem countDupAck_le (ctx : SendContext) (ackStreamPos : Nat) :
    (ctx.countDupAck ackStreamPos).latestAckStreamPos ≤ max ctx.latestAckStreamPos ackStreamPos ∧
    (ctx.countDupAck ackStreamPos).prevDupAckStreamPos = ctx.prevDupAckStreamPos := by
  unfold countDupAck
  split
  · split
    · exact ⟨Nat.le_max_right _ _, rfl⟩
    · split <;> exact ⟨Nat.le_max_left _ _, rfl⟩
  · exact ⟨Nat.le_max_left _ _, rfl⟩

variable {ctx : SendContext}

theorem AckOrdered.acked (h : ctx.AckOrdered) (ackStreamPos : Nat) :
    (ctx.acked ackStreamPos).AckOrdered := by
  obtain ⟨hlatest, hprev⟩ := h
  obtain ⟨hle, heq⟩ := countDupAck_le ctx ackStreamPos
  have hack := (acked_fields ctx ackStreamPos).1
  constructor <;> rw [hack]
  · show (ctx.countDupAck ackStreamPos).latestAckStreamPos ≤ _
    omega
  · show (ctx.countDupAck ackStreamPos).prevDupAckStreamPos ≤ _
    omega

/-- An ack that is counted for the fourth time does not advance the ack position. -/
theorem acked_dup (h : ctx.AckOrdered) {ackStreamPos : Nat}
    (hdup : (ctx.acked ackStreamPos).dupAckTimes = 4) (hne : ctx.ackStreamPos < ackStreamPos) :
    False := by
  have hprev : ctx.prevDupAckStreamPos < ackStreamPos := by
    have := h.prev_le
    omega
  have hlatest : ctx.latestAckStreamPos < ackStreamPos := by
    have := h.latest_le
    omega
  simp [acked, countDupAck, hprev, hlatest] at hdup

theorem confirm_eq (ctx : SendContext) (ackStreamPos : Nat)
    (sackArray : Option (List BdtStreamRange)) :
    ctx.confirm ackStreamPos sackArray =
      confirmLoop sackArray (ctx.flightBlocks.length + ctx.lostBlocks.length)
        { ctx.acked ackStreamPos with flightBlocks := [], lostBlocks := [] }
        ctx.flightBlocks ctx.lostBlocks 0 := by
  obtain ⟨_, _, hf, hl, _⟩ := acked_fields ctx ackStreamPos
  rw [← hf, ← hl]
  rfl

theorem Walk.start (h : ctx.Counted) (ho : ctx.AckOrdered) (ackStreamPos : Nat) :
    Walk (ctx.acked ackStreamPos)
      { ctx.acked ackStreamPos with flightBlocks := [], lostBlocks := [] }
      ctx.flightBlocks ctx.lostBlocks 0 := by
  obtain ⟨_, _, hf, hl, hflight, hlost, hunder⟩ := acked_fields ctx ackStreamPos
  have hblocks : (ctx.acked ackStreamPos).blocks = ctx.blocks := by rw [blocks, hf, hl]; rfl
  exact {
    ackStreamPos := rfl
    streamPos := rfl
    ordered := ⟨(ho.acked ackStreamPos).latest_le, (ho.acked ackStreamPos).prev_le⟩
    flight_eq := by simp only [totalLen_nil, Nat.zero_add]; exact hflight.trans h.flight_eq
    lost_eq := by simp only [totalLen_nil, Nat.zero_add]; exact hlost.trans h.lost_eq
    total := Nat.zero_add _
    underflow := hunder.trans h.underflow
    kept := Parted.nil
    rest := h.parted
    ahead := by simp [blocks]
    known := fun b hb => by
      rw [hblocks]
      simpa [blocks] using hb
    above := fun hd => ⟨by simp [blocks], fun h4 r hr => hd h4 r (hblocks ▸ hr)⟩ }

/-- Blocks above the ack position are safe from the fourth ack, which does not advance it. -/
theorem dupSafe_acked (ho : ctx.AckOrdered) (ackStreamPos : Nat)
    (habove : ∀ b ∈ ctx.blocks, ctx.ackStreamPos < b.endStreamPos) :
    (ctx.acked ackStreamPos).DupSafe := by
  obtain ⟨hack, _, hf, hl, _⟩ := acked_fields ctx ackStreamPos
  intro h4 b hb
  have hle : ackStreamPos ≤ ctx.ackStreamPos := Nat.not_lt.mp (acked_dup ho h4)
  rw [blocks, hf, hl] at hb
  have := habove b hb
  omega

theorem Walk.finish {c : SendContext} {fs ls : List SendQueueSendBlock} {out ackStreamPos : Nat}
    (hctx : ctx.Counted) (ho : ctx.AckOrdered) (h : Walk (ctx.acked ackStreamPos) c fs ls out)
    (hstop : (ctx.acked ackStreamPos).DupSafe → ∀ r ∈ fs ++ ls, c.ackStreamPos < r.endStreamPos) :
    Confirmed ctx (c.putBack fs ls) out ∧
    (c.putBack fs ls).ackStreamPos = max ctx.ackStreamPos ackStreamPos ∧
    ((∀ b ∈ ctx.blocks, ctx.ackStreamPos < b.endStreamPos) →
      ∀ b ∈ (c.putBack fs ls).blocks, (c.putBack fs ls).ackStreamPos < b.endStreamPos) := by
  obtain ⟨hack, hpos, hf, hl, hflight, hlost, _⟩ := acked_fields ctx ackStreamPos
  have hmem : ∀ b, b ∈ (c.putBack fs ls).blocks ↔ b ∈ c.blocks ++ (fs ++ ls) := by
    intro b
    simp only [blocks, SendContext.putBack, mem_append]
    tauto
  have hsmall := hctx.small
  refine ⟨⟨h.putBack (by omega), ⟨h.ordered.latest_le, h.ordered.prev_le⟩, h.streamPos.trans hpos,
    by rw [← hflight, ← hlost]; exact h.total, ?_⟩, h.ackStreamPos.trans hack, ?_⟩
  · intro b hb
    have := h.known b ((hmem b).mp hb)
    rwa [blocks, hf, hl] at this
  intro habove b hb
  have hd := dupSafe_acked ho ackStreamPos habove
  rcases mem_append.mp ((hmem b).mp hb) with hb | hb
  · exact (h.above hd).1 b hb
  · exact hstop hd b hb

/-- `SendQueueConfirmRange` keeps the accounting, for every ack and every sack array. -/
theorem Counted.confirm (h : ctx.Counted) (ho : ctx.AckOrdered)
    (ackStreamPos : Nat) (sackArray : Option (List BdtStreamRange)) :
    Confirmed ctx (ctx.confirm ackStreamPos sackArray).1 (ctx.confirm ackStreamPos sackArray).2 ∧
    (ctx.confirm ackStreamPos sackArray).1.ackStreamPos = max ctx.ackStreamPos ackStreamPos ∧
    ((∀ b ∈ ctx.blocks, ctx.ackStreamPos < b.endStreamPos) →
      ∀ b ∈ (ctx.confirm ackStreamPos sackArray).1.blocks,
        (ctx.confirm ackStreamPos sackArray).1.ackStreamPos < b.endStreamPos) := by
  have hsmall : (ctx.acked ackStreamPos).flight + (ctx.acked ackStreamPos).lost < 2 ^ 32 := by
    obtain ⟨_, _, _, _, hflight, hlost, _⟩ := acked_fields ctx ackStreamPos
    rw [hflight, hlost]
    exact h.small
  rw [confirm_eq]
  refine confirmLoop_rule (Walk (ctx.acked ackStreamPos))
    (fun after out => Confirmed ctx after out ∧
      after.ackStreamPos = max ctx.ackStreamPos ackStreamPos ∧
      ((∀ b ∈ ctx.blocks, ctx.ackStreamPos < b.endStreamPos) →
        ∀ b ∈ after.blocks, after.ackStreamPos < b.endStreamPos)) ?_ ?_ rfl
    (Walk.start h ho ackStreamPos)
  · intro c fs ls out block bFlight flightRest lostRest state next hw hn hc
    have ht := nextBlock_taken hn hw.rest
    have hmem : block ∈ fs ++ ls := (ht.mem_iff block).mpr (.inl rfl)
    have hnext := hw.check hc
    have habove := fun hs hd => hw.block_above hd hmem hc hs
    cases state with
    | outOfRange =>
      refine hnext.finish h ho fun hd r hr => ?_
      have hb := habove (by simp) hd
      rcases (ht.mem_iff r).mp hr with rfl | hr
      · exact hb
      have hbefore := ht.before r hr
      have hproper : r.Proper := ht.parted.proper r hr
      unfold Before Proper at *
      omega
    | ack => exact hnext.ack hsmall ht
    | prev => exact hnext.keep ht (habove (by simp))
    | lost => exact hnext.lose hsmall ht (habove (by simp))
  · intro c out hw
    exact hw.finish h ho (by simp)

end SendContext

end Bdt
