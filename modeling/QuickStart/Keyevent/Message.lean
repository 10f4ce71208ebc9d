import Mathlib.Data.List.TakeWhile
import QuickStart.Keyevent.Step

/-! # The messages that `board_event` tells apart

`read` leaves a byte count, and `handle_dev_info` compares `recv_buf` as a C string. A message that stops within
the string it is compared with is completed by what earlier messages have left behind it. -/

namespace QuickStart.Keyevent

/-- `strcmp` on the memory at two pointers; nothing when it reads past the end of one of them. -/
def strcmp : List Byte → List Byte → Option Int
  | a :: s, b :: t => if a ≠ b then some ((a.toNat : Int) - b.toNat) else if a = 0 then some 0 else strcmp s t
  | _, _ => none

inductive Branch
  | wifi
  | unused
  deriving DecidableEq, Repr

/-- `handle_dev_info` on the memory at `msg`. -/
def handleDevInfo (msg : List Byte) : Option Branch :=
  (strcmp msg (wifiOnoffKey ++ [0])).map fun r => if r = 0 then .wifi else .unused

/-- The branch for a message by its own bytes: up to its first NUL, or all of them. -/
def ownBranch (m : List Byte) : Branch := if m.takeWhile (· ≠ 0) = wifiOnoffKey then .wifi else .unused

/-- The consumer has just read the message `m`, in some run from a start with arbitrary buffers. -/
def EndsWith (m : List Byte) (t : State) : Prop :=
  ∃ send recv buf s room, send.length = sendBufSize ∧ recv.length = recvBufSize ∧ buf.length = recvMaxBufSize ∧
    (lts send recv buf).Reachable s ∧ s.pc = .read ∧
    boardButtonRead s.dev recvMaxBufSize room = ((m.length : Int), m) ∧ consumerStep s room = some t

/-- Any two runs that end with `m` take the branch that `m` itself calls for. -/
def ByOwnBytes (m : List Byte) : Prop :=
  ∀ t t', EndsWith m t → EndsWith m t' →
    handleDevInfo t.recvBuf = handleDevInfo t'.recvBuf ∧ handleDevInfo t.recvBuf = some (ownBranch m)

/-! ### Strings in memory -/

section Strings
variable {key mem m rest : List Byte}

theorem strcmp_isSome (hlen : key.length < mem.length) : (strcmp mem (key ++ [0])).isSome := by
  induction key generalizing mem with
  | nil =>
    obtain ⟨a, s, rfl⟩ := List.exists_cons_of_length_pos hlen
    simp only [List.nil_append, strcmp]
    split
    · rfl
    · rename_i ha
      rw [if_pos (not_not.mp ha)]
      rfl
  | cons b key ih =>
    obtain ⟨a, s, rfl⟩ := List.exists_cons_of_length_pos (Nat.zero_lt_of_lt hlen)
    simp only [List.cons_append, strcmp]
    split
    · rfl
    · split
      · rfl
      · exact ih (Nat.lt_of_succ_lt_succ hlen)

/-- A string compares equal exactly if it stands in the memory with its terminator. -/
theorem strcmp_eq_zero (hkey : 0 ∉ key) : strcmp mem (key ++ [0]) = some 0 ↔ key ++ [0] <+: mem := by
  have hsub {a b : Byte} (hab : a ≠ b) : (a.toNat : Int) - b.toNat ≠ 0 := fun h =>
    hab (BitVec.eq_of_toNat_eq (by omega))
  induction key generalizing mem with
  | nil =>
    cases mem with
    | nil => simp [strcmp]
    | cons a s =>
      rw [List.nil_append, List.cons_prefix_cons, strcmp]
      by_cases ha : a = 0
      · rw [if_neg (not_not.mpr ha), if_pos ha]
        exact ⟨fun _ => ⟨ha.symm, List.nil_prefix⟩, fun _ => rfl⟩
      · rw [if_pos ha]
        exact ⟨fun h => absurd (Option.some.inj h) (hsub ha), fun h => absurd h.1.symm ha⟩
  | cons b key ih =>
    obtain ⟨hb, hkey⟩ := not_or.mp fun h => hkey (List.mem_cons.mpr h)
    cases mem with
    | nil => simp [strcmp]
    | cons a s =>
      rw [List.cons_append, List.cons_prefix_cons, strcmp]
      by_cases hab : a = b
      · rw [if_neg (not_not.mpr hab), if_neg fun ha => hb (ha.symm.trans hab), and_iff_right hab.symm]
        exact ih hkey
      · rw [if_pos hab]
        exact ⟨fun h => absurd (Option.some.inj h) (hsub hab), fun h => absurd h.1.symm hab⟩

/-- A message that is no beginning of a string equals it up to a NUL exactly if the memory at the message starts
    with the string and its terminator. -/
theorem takeWhile_eq_iff (hkey : 0 ∉ key) (hm : ¬m <+: key) :
    m.takeWhile (· ≠ 0) = key ↔ key ++ [0] <+: m ++ rest := by
  constructor
  · intro htake
    have hsplit : key ++ m.dropWhile (· ≠ 0) = m := by rw [← htake, List.takeWhile_append_dropWhile]
    cases hdrop : m.dropWhile (· ≠ 0) with
    | nil => exact absurd ⟨[], by rw [List.append_nil, ← hsplit, hdrop, List.append_nil]⟩ hm
    | cons a s =>
      have ha : a = 0 := by
        have hne : m.dropWhile (· ≠ 0) ≠ [] := hdrop ▸ List.cons_ne_nil a s
        have hhead := List.head_dropWhile_not _ hne
        simp only [hdrop, List.head_cons] at hhead
        exact not_not.mp (of_decide_eq_false hhead)
      refine List.IsPrefix.trans ⟨s, ?_⟩ (List.prefix_append m rest)
      rw [← ha, List.append_assoc, List.singleton_append, ← hdrop, hsplit]
  · intro hprefix
    have hstring : key ++ [0] <+: m := by
      rcases List.prefix_or_prefix_of_prefix hprefix (List.prefix_append m rest) with h | h
      · exact h
      · rcases List.prefix_concat_iff.mp h with heq | h
        · exact heq ▸ List.prefix_rfl
        · exact absurd h hm
    obtain ⟨s, rfl⟩ := hstring
    rw [List.append_assoc, List.takeWhile_append_of_pos fun a ha => by
      simpa using ne_of_mem_of_not_mem ha hkey]
    simp

end Strings

theorem zero_notMem_wifiOnoffKey : 0 ∉ wifiOnoffKey := by decide

theorem handleDevInfo_eq {mem : List Byte} (hlen : wifiOnoffKey.length < mem.length) :
    handleDevInfo mem = some (if wifiOnoffKey ++ [0] <+: mem then .wifi else .unused) := by
  obtain ⟨r, hr⟩ := Option.isSome_iff_exists.mp (strcmp_isSome hlen)
  have hzero : strcmp mem (wifiOnoffKey ++ [0]) = some 0 ↔ wifiOnoffKey ++ [0] <+: mem :=
    strcmp_eq_zero zero_notMem_wifiOnoffKey
  rw [hr, Option.some_inj] at hzero
  simp only [handleDevInfo, hr, Option.map_some, hzero]

/-! ### What a run leaves in `recv_buf` -/

section Runs
variable {send recv buf m : List Byte} {s t : State}

theorem callStep_recvBuf (s : State) (c : Call) : (callStep s c).1.recvBuf = s.recvBuf := by
  cases c with
  | post data len pc => cases pc <;> rfl
  | write buf count room pc => cases pc <;> rfl

theorem length_recvBuf (h : (lts send recv buf).Reachable s) : s.recvBuf.length = buf.length := by
  refine h.invariant (I := fun s => s.recvBuf.length = buf.length) ?_ fun s e t hlen _ hstep => ?_
  · rintro s rfl
    rfl
  cases e with
  | consumer room =>
    cases consumerStep_consumes hstep with
    | reads r hpc hr => exact (length_memcpy _ _ _).trans hlen
    | _ => exact hlen
  | postEnter _ _ | writeEnter _ _ _ =>
    obtain rfl := Option.some.inj hstep
    exact hlen
  | call i =>
    obtain ⟨c, -, rfl⟩ := Option.map_eq_some_iff.mp hstep
    exact (congrArg List.length (callStep_recvBuf s c)).trans hlen

theorem memcpy_length (h : m.length ≤ buf.length) : memcpy buf m m.length = m ++ buf.drop m.length := by
  rw [memcpy, List.take_length]
  refine List.take_of_length_le ?_
  rw [List.length_append, List.length_drop]
  omega

theorem EndsWith.recvBuf (h : EndsWith m t) (hm : m.length ≤ recvMaxBufSize) :
    t.recvBuf.length = recvMaxBufSize ∧ ∃ rest, t.recvBuf = m ++ rest := by
  obtain ⟨send, recv, buf, s, room, -, -, hbuf, hreach, hpc, hread, hstep⟩ := h
  have hlen : s.recvBuf.length = recvMaxBufSize := (length_recvBuf hreach).trans hbuf
  have ht : t.recvBuf = memcpy s.recvBuf m m.length := by
    simp only [consumerStep, hpc, hread, Option.some_inj] at hstep
    rw [← hstep]
  rw [ht]
  exact ⟨(length_memcpy _ _ _).trans hlen, _, memcpy_length (hm.trans_eq hlen.symm)⟩

/-- A post, from its call to its return, and the consumer up to its read. -/
def postThenPoll (m : List Byte) : List Event :=
  [.postEnter m m.length] ++ List.replicate 5 (.call 0) ++ List.replicate 4 (.consumer recvMaxBufSize)

/-- The state in which the consumer is about to read its first message. -/
def firstRead (send recv buf m : List Byte) : State where
  dev :=
    { sendData := { data := memcpy send m m.length, len := m.length }
      recvData := { data := recv, len := 0 }
      triggerStatus := false }
  calls := []
  pc := .read
  waiting := false
  woken := false
  recvBuf := buf
  recvnum := 0

theorem postThenPoll_firstRead (hm : m.length ≤ recvMaxBufSize) :
    (lts send recv buf).runIf (fun _ _ => True) (.start send recv buf) (postThenPoll m) =
      some (firstRead send recv buf m) := by
  have hshort : ¬(m.length : Int) > sendBufSize := by
    rw [recvMaxBufSize] at hm
    rw [sendBufSize]
    omega
  have hsize : sizeT m.length = m.length := sizeT_natCast (hm.trans_lt (by decide))
  simp [postThenPoll, Lts.runIf, lts, step, State.start, boardButtonDevInit, callStep, postStep, hshort, Calls.put,
    consumerStep, State.wakeUp, hsize, Dev.setSendLen, Dev.setSendBuf, Dev.setTrigger, firstRead]

/-- Every message that fits can come first, to a buffer with arbitrary contents. -/
theorem exists_endsWith (hm : m.length ≤ recvMaxBufSize) (hbuf : buf.length = recvMaxBufSize) :
    ∃ t, EndsWith m t ∧ t.recvBuf = m ++ buf.drop m.length := by
  let send : List Byte := List.replicate sendBufSize 0
  let recv : List Byte := List.replicate recvBufSize 0
  have hfit : m.length ≤ send.length := hm.trans (by rw [List.length_replicate]; decide)
  have hread : boardButtonRead (firstRead send recv buf m).dev recvMaxBufSize recvMaxBufSize =
      ((m.length : Int), m) := by
    have hdata : (firstRead send recv buf m).dev.sendData = { data := memcpy send m m.length, len := m.length } := rfl
    rw [boardButtonRead, if_neg (by decide)]
    simp only [hdata, if_pos hm, Nat.min_eq_left hm, take_memcpy hfit le_rfl, List.take_length]
  have hstep : consumerStep (firstRead send recv buf m) recvMaxBufSize =
      some { firstRead send recv buf m with recvBuf := memcpy buf m m.length, recvnum := m.length, pc := .handle } := by
    simp only [consumerStep, firstRead] at hread ⊢
    rw [hread]
  refine ⟨_, ⟨send, recv, buf, firstRead send recv buf m, recvMaxBufSize, List.length_replicate,
    List.length_replicate, hbuf, (Lts.Reach.init rfl).runIf (postThenPoll_firstRead hm), rfl, hread, hstep⟩, ?_⟩
  exact memcpy_length (hm.trans_eq hbuf.symm)

end Runs

/-! ### The messages that are told apart -/

section Main
variable {m : List Byte}

theorem EndsWith.branch {t : State} (h : EndsWith m t) (hm : m.length ≤ recvMaxBufSize) :
    handleDevInfo t.recvBuf = some (if wifiOnoffKey ++ [0] <+: t.recvBuf then .wifi else .unused) :=
  handleDevInfo_eq (by rw [(h.recvBuf hm).1]; decide)

/-- A beginning of the key is taken for something else than it is after some run. -/
theorem exists_misread (hkey : m <+: wifiOnoffKey) :
    ∃ t, EndsWith m t ∧ handleDevInfo t.recvBuf ≠ some (ownBranch m) := by
  have hm : m.length ≤ recvMaxBufSize := hkey.length_le.trans (by decide)
  have hown : m.takeWhile (· ≠ 0) = m := List.takeWhile_eq_self_iff.mpr fun a ha => by
    simpa using ne_of_mem_of_not_mem (hkey.subset ha) zero_notMem_wifiOnoffKey
  by_cases hwhole : m = wifiOnoffKey
  · -- The key itself, with a byte behind it that is no terminator.
    obtain ⟨t, ht, hbuf⟩ := exists_endsWith hm (List.length_replicate (n := recvMaxBufSize) (a := (1 : Byte)))
    refine ⟨t, ht, ?_⟩
    rw [ht.branch hm, ownBranch, hown, if_pos hwhole, hbuf, hwhole]
    decide
  · -- The rest of the key and its terminator are left from before.
    let stale : List Byte := wifiOnoffKey ++ List.replicate 247 0
    have hstale : stale.length = recvMaxBufSize := by
      rw [List.length_append, List.length_replicate]
      rfl
    obtain ⟨t, ht, hbuf⟩ := exists_endsWith hm hstale
    refine ⟨t, ht, ?_⟩
    have hprefix : wifiOnoffKey ++ [0] <+: t.recvBuf := by
      rw [hbuf, List.prefix_iff_eq_append.mp (hkey.trans (List.prefix_append _ _))]
      exact (List.prefix_append_right_inj _).mpr ⟨List.replicate 246 0, rfl⟩
    rw [ht.branch hm, ownBranch, hown, if_neg hwhole, if_pos hprefix]
    decide

/-- A message of up to 255 bytes is classified by its own bytes in all runs exactly if it is no beginning of the
    key, neither the whole of it nor nothing of it. -/
theorem by_own_bytes_iff (hm : m.length ≤ recvMaxBufSize) : ByOwnBytes m ↔ ¬m <+: wifiOnoffKey := by
  constructor
  · intro h hkey
    obtain ⟨t, ht, hne⟩ := exists_misread hkey
    exact hne (h t t ht ht).2
  · intro hkey
    have hown (t : State) (ht : EndsWith m t) : handleDevInfo t.recvBuf = some (ownBranch m) := by
      obtain ⟨-, rest, hrest⟩ := ht.recvBuf hm
      have hiff : m.takeWhile (· ≠ 0) = wifiOnoffKey ↔ wifiOnoffKey ++ [0] <+: m ++ rest :=
        takeWhile_eq_iff zero_notMem_wifiOnoffKey hkey
      rw [ht.branch hm, hrest]
      simp only [ownBranch, hiff]
    intro t t' ht ht'
    exact ⟨(hown t ht).trans (hown t' ht').symm, hown t ht⟩

end Main

theorem by_own_bytes_terminated : (wifiOnoffKey ++ [0]).length ≤ recvMaxBufSize ∧ ByOwnBytes (wifiOnoffKey ++ [0]) :=
  ⟨by decide, (by_own_bytes_iff (by decide)).mpr (by decide)⟩

def keyThenBeginning : List Event :=
  postThenPoll (wifiOnoffKey ++ [0]) ++ List.replicate 2 (.consumer recvMaxBufSize) ++ postThenPoll (wifiOnoffKey.take 4)

set_option maxRecDepth 8000 in
/-- Four bytes of the key are read into a cleared buffer, and behind them the rest of it from the message before. -/
theorem classified_by_leftover : ¬ByOwnBytes (wifiOnoffKey.take 4) ∧ ∃ t t', EndsWith (wifiOnoffKey.take 4) t ∧
    EndsWith (wifiOnoffKey.take 4) t' ∧ handleDevInfo t.recvBuf = some .unused ∧
    handleDevInfo t'.recvBuf = some .wifi := by
  have hruns : ∃ t t', EndsWith (wifiOnoffKey.take 4) t ∧ EndsWith (wifiOnoffKey.take 4) t' ∧
      handleDevInfo t.recvBuf = some .unused ∧ handleDevInfo t'.recvBuf = some .wifi := by
    let send : List Byte := List.replicate sendBufSize 0
    let recv : List Byte := List.replicate recvBufSize 0
    let buf : List Byte := List.replicate recvMaxBufSize 0
    have hcleared : buf.length = recvMaxBufSize := List.length_replicate
    obtain ⟨t, ht, hbuf⟩ := exists_endsWith (m := wifiOnoffKey.take 4) (by decide) hcleared
    have hrun : ((lts send recv buf).runIf (fun _ _ => True) (.start send recv buf) keyThenBeginning).any
        (fun s => s.pc == .read && boardButtonRead s.dev recvMaxBufSize recvMaxBufSize == (4, wifiOnoffKey.take 4) &&
          (consumerStep s recvMaxBufSize).any fun t => handleDevInfo t.recvBuf == some .wifi) = true := by decide
    obtain ⟨s, hs, hp⟩ := Lts.exists_reach_of_runIf hrun rfl
    simp only [Bool.and_eq_true, beq_iff_eq, Option.any_eq_true] at hp
    obtain ⟨⟨hpc, hread⟩, t', hstep, hwifi⟩ := hp
    refine ⟨t, t', ht, ⟨send, recv, buf, s, recvMaxBufSize, List.length_replicate, List.length_replicate,
      hcleared, hs, hpc, hread, hstep⟩, ?_, hwifi⟩
    rw [hbuf]
    decide
  refine ⟨fun h => ?_, hruns⟩
  obtain ⟨t, t', ht, ht', hunused, hwifi⟩ := hruns
  have hsame := (h t t' ht ht').1
  rw [hunused, hwifi] at hsame
  cases hsame

end QuickStart.Keyevent
