import MultithreadedWebServer.ServeRuns

/-!
# WrappedWrite with its counter

`wrappedWrite` drops what has been written from the front of the buffer. Here the loop is
written with `written_so_far` and the pointer that is computed from it; both are the same
(`wrappedWrite_eq_counted`). Whatever `write` does, the bytes that it accepted are the front
of the buffer, and the counter is their number.

`WriteResponse` converts the length of the response to `int` for the call and for the
comparison. From `2 ^ 32` bytes on both can be much smaller than the response.
-/

namespace MultithreadedWebServer

/-! ## The loop -/

/-- The loop of `WrappedWrite`: `written_so_far`, what is sent, and what `write` does next. -/
def writeCounted (buf : List UInt8) (writelen : ℤ) :
    List WriteOutcome → ℕ → List UInt8 → ℕ × List UInt8 × List WriteOutcome
  | [], writtenSoFar, sent =>
    let request := (writelen - writtenSoFar).toNat
    (writtenSoFar + request, sent ++ (buf.drop writtenSoFar).take request, [])
  | outcome :: writes, writtenSoFar, sent =>
    if (writtenSoFar : ℤ) < writelen then
      match outcome with
      | .retry => writeCounted buf writelen writes writtenSoFar sent
      | .fatal => (writtenSoFar, sent, writes)
      | .accepts n =>
        -- `write` accepts at most what it is offered
        let res := min n (writelen - writtenSoFar).toNat
        if res = 0 then (writtenSoFar, sent, writes)
        else writeCounted buf writelen writes (writtenSoFar + res)
          (sent ++ (buf.drop writtenSoFar).take res)
    else
      (writtenSoFar, sent, outcome :: writes)

/-- `WrappedWrite`, with the counter. -/
def wrappedWriteCounted (buf : List UInt8) (writelen : ℤ) : Run Socket ℤ := fun socket =>
  let (writtenSoFar, sent, writes) := writeCounted buf writelen socket.writes 0 socket.sent
  .ok (writtenSoFar, { socket with writes := writes, sent := sent })

/-- The coming calls of `write` accept so many bytes before one fails or accepts none. -/
def carries : List WriteOutcome → ℕ → Bool
  | [], _ => true
  | outcome :: writes, n =>
    if n = 0 then true
    else match outcome with
      | .retry => carries writes n
      | .fatal => false
      | .accepts m => if m = 0 then false else carries writes (n - m)

/-- A call of `write` that ends the loop early. -/
def endsEarly (used : List WriteOutcome) : Prop :=
  used.getLast? = some .fatal ∨ used.getLast? = some (.accepts 0)

theorem endsEarly_cons {used : List WriteOutcome} (h : endsEarly used) (outcome : WriteOutcome) :
    endsEarly (outcome :: used) := by
  have hlast : ∀ {w}, used.getLast? = some w → (outcome :: used).getLast? = some w := by
    intro w hw
    rw [List.getLast?_cons, hw]
    rfl
  exact h.imp hlast hlast

section Loop

variable (buf : List UInt8) (writelen : ℕ)

/-- What the loop does from a place in the buffer on: the counter moves on to `r`, and what
is sent are the bytes in between. -/
structure WritesTo (buf : List UInt8) (writelen : ℕ) (writes : List WriteOutcome)
    (writtenSoFar : ℕ) (sent : List UInt8) (r : ℕ) (used writes' : List WriteOutcome) : Prop where
  /-- the result of the loop -/
  result : writeCounted buf writelen writes writtenSoFar sent =
    (r, sent ++ (buf.drop writtenSoFar).take (r - writtenSoFar), writes')
  /-- nothing is taken back -/
  le : writtenSoFar ≤ r
  /-- nothing is written behind the buffer -/
  bound : r ≤ writelen
  /-- the calls that were made -/
  calls : writes = used ++ writes'
  /-- it is all written unless the last of them failed or accepted nothing -/
  complete : r = writelen ∨ endsEarly used
  /-- and that depends on the calls alone -/
  carried : r = writelen ↔ carries writes (writelen - writtenSoFar) = true

variable {buf writelen}
variable {writes used writes' : List WriteOutcome} {writtenSoFar r : ℕ} {sent : List UInt8}

/-- A call that ends the loop leaves the counter and what is sent. -/
theorem WritesTo.ends {last : WriteOutcome} (hlt : writtenSoFar < writelen)
    (hrun : writeCounted buf writelen (last :: writes) writtenSoFar sent =
      (writtenSoFar, sent, writes))
    (hcarries : carries (last :: writes) (writelen - writtenSoFar) = false)
    (hlast : endsEarly [last]) :
    WritesTo buf writelen (last :: writes) writtenSoFar sent writtenSoFar [last] writes where
  result := by rw [hrun, Nat.sub_self, List.take_zero, List.append_nil]
  le := Nat.le_refl _
  bound := Nat.le_of_lt hlt
  calls := rfl
  complete := .inr hlast
  carried := by simp [hcarries, Nat.ne_of_lt hlt]

/-- An interrupted call is made again. -/
theorem WritesTo.retry (hlt : writtenSoFar < writelen)
    (h : WritesTo buf writelen writes writtenSoFar sent r used writes') :
    WritesTo buf writelen (.retry :: writes) writtenSoFar sent r (.retry :: used) writes' where
  result := by
    rw [writeCounted, if_pos (Int.ofNat_lt.mpr hlt)]
    exact h.result
  le := h.le
  bound := h.bound
  calls := by rw [h.calls, List.cons_append]
  complete := h.complete.imp_right fun hearly => endsEarly_cons hearly _
  carried := by rw [h.carried, carries, if_neg (Nat.sub_ne_zero_of_lt hlt)]

/-- A call that accepts something moves the counter on. -/
theorem WritesTo.accepts {n : ℕ} (hlt : writtenSoFar < writelen) (hn : n ≠ 0)
    (h : WritesTo buf writelen writes (writtenSoFar + min n (writelen - writtenSoFar))
      (sent ++ (buf.drop writtenSoFar).take (min n (writelen - writtenSoFar))) r used writes') :
    WritesTo buf writelen (.accepts n :: writes) writtenSoFar sent r (.accepts n :: used)
      writes' where
  result := by
    have hle := h.le
    have hrequest : ((writelen : ℤ) - writtenSoFar).toNat = writelen - writtenSoFar := by omega
    have hres : min n (writelen - writtenSoFar) ≠ 0 := by omega
    have hsplit : r - writtenSoFar = min n (writelen - writtenSoFar) +
        (r - (writtenSoFar + min n (writelen - writtenSoFar))) := by omega
    rw [writeCounted, if_pos (Int.ofNat_lt.mpr hlt), hrequest, if_neg hres, h.result, hsplit,
      List.take_add, List.drop_drop, List.append_assoc]
  le := Nat.le_trans (Nat.le_add_right _ _) h.le
  bound := h.bound
  calls := by rw [h.calls, List.cons_append]
  complete := h.complete.imp_right fun hearly => endsEarly_cons hearly _
  carried := by
    have hleft : writelen - (writtenSoFar + min n (writelen - writtenSoFar)) =
        writelen - writtenSoFar - n := by omega
    rw [h.carried, hleft, carries, if_neg (Nat.sub_ne_zero_of_lt hlt), if_neg hn]

variable (buf writelen)

/-- The loop, by induction on the calls of `write`. -/
theorem writeCounted_spec (writes : List WriteOutcome) : ∀ (writtenSoFar : ℕ) (sent : List UInt8),
    writtenSoFar ≤ writelen →
    ∃ r used writes', WritesTo buf writelen writes writtenSoFar sent r used writes' := by
  induction writes with
  | nil =>
    intro writtenSoFar sent h
    have hrequest : ((writelen : ℤ) - writtenSoFar).toNat = writelen - writtenSoFar := by omega
    have hall : writtenSoFar + (writelen - writtenSoFar) = writelen := Nat.add_sub_of_le h
    refine ⟨writelen, [], [], ⟨?_, h, Nat.le_refl _, rfl, .inl rfl, by simp [carries]⟩⟩
    rw [writeCounted, hrequest, hall]
  | cons outcome writes ih =>
    intro writtenSoFar sent h
    rcases Nat.eq_or_lt_of_le h with rfl | hlt
    · refine ⟨writtenSoFar, [], outcome :: writes, ⟨?_, h, h, rfl, .inl rfl, by simp [carries]⟩⟩
      rw [writeCounted.eq_def]
      simp
    have hlt' : (writtenSoFar : ℤ) < writelen := Int.ofNat_lt.mpr hlt
    have hmore : writelen - writtenSoFar ≠ 0 := Nat.sub_ne_zero_of_lt hlt
    cases outcome with
    | fatal =>
      refine ⟨writtenSoFar, [.fatal], writes, .ends hlt ?_ ?_ (.inl rfl)⟩
      · rw [writeCounted, if_pos hlt']
      · rw [carries, if_neg hmore]
    | retry =>
      obtain ⟨r, used, writes', hto⟩ := ih writtenSoFar sent h
      exact ⟨r, .retry :: used, writes', hto.retry hlt⟩
    | accepts n =>
      by_cases hn : n = 0
      · subst hn
        refine ⟨writtenSoFar, [.accepts 0], writes, .ends hlt ?_ ?_ (.inr rfl)⟩
        · rw [writeCounted, if_pos hlt', Nat.zero_min, if_pos rfl]
        · rw [carries, if_neg hmore, if_pos rfl]
      · obtain ⟨r, used, writes', hto⟩ := ih (writtenSoFar + min n (writelen - writtenSoFar))
          (sent ++ (buf.drop writtenSoFar).take (min n (writelen - writtenSoFar))) (by omega)
        exact ⟨r, .accepts n :: used, writes', hto.accepts hlt hn⟩

/-- What is left of the buffer after a call that accepts at most so many bytes. -/
theorem drop_left (writtenSoFar n : ℕ) :
    ((buf.drop writtenSoFar).take (writelen - writtenSoFar)).drop n =
      (buf.drop (writtenSoFar + min n (writelen - writtenSoFar))).take
        (writelen - (writtenSoFar + min n (writelen - writtenSoFar))) := by
  rw [List.drop_take, List.drop_drop]
  rcases Nat.le_total n (writelen - writtenSoFar) with hle | hle
  · rw [Nat.min_eq_left hle, Nat.sub_sub]
  · have hnone : writelen - (writtenSoFar + (writelen - writtenSoFar)) = 0 := by omega
    rw [Nat.min_eq_right hle, Nat.sub_eq_zero_of_le hle, hnone, List.take_zero, List.take_zero]

/-- Dropping what was written and counting it are the same. -/
theorem writeLoop_eq_counted (writes : List WriteOutcome) (hbuf : writelen ≤ buf.length) :
    ∀ (writtenSoFar : ℕ) (sent : List UInt8), writtenSoFar ≤ writelen →
    writeLoop writes ((buf.drop writtenSoFar).take (writelen - writtenSoFar)) sent =
      (writeCounted buf writelen writes writtenSoFar sent).2 := by
  induction writes with
  | nil =>
    intro writtenSoFar sent _
    have hrequest : ((writelen : ℤ) - writtenSoFar).toNat = writelen - writtenSoFar := by omega
    rw [writeCounted, hrequest]
    rcases hleft : (buf.drop writtenSoFar).take (writelen - writtenSoFar) with _ | ⟨b, left⟩
    · rw [writeLoop, List.append_nil]
    · rw [writeLoop]
      exact List.cons_ne_nil b left
  | cons outcome writes ih =>
    intro writtenSoFar sent h
    rcases Nat.eq_or_lt_of_le h with rfl | hlt
    · rw [Nat.sub_self, List.take_zero, writeLoop, writeCounted.eq_def]
      simp
    have hlt' : (writtenSoFar : ℤ) < writelen := Int.ofNat_lt.mpr hlt
    have hrequest : ((writelen : ℤ) - writtenSoFar).toNat = writelen - writtenSoFar := by omega
    have hlen : ((buf.drop writtenSoFar).take (writelen - writtenSoFar)).length =
        writelen - writtenSoFar := by
      rw [List.length_take, List.length_drop]
      omega
    obtain ⟨b, left, hleft⟩ := List.exists_cons_of_length_pos
      (by rw [hlen]; exact Nat.sub_pos_of_lt hlt)
    cases outcome with
    | retry =>
      have ih := ih writtenSoFar sent h
      rw [hleft] at ih ⊢
      rw [writeLoop, writeCounted, if_pos hlt', ih]
      exact List.cons_ne_nil b left
    | fatal =>
      rw [hleft, writeLoop, writeCounted, if_pos hlt']
      exact List.cons_ne_nil b left
    | accepts n =>
      have hstep : writeLoop (.accepts n :: writes) (b :: left) sent = if n = 0 then (sent, writes)
          else writeLoop writes ((b :: left).drop n) (sent ++ (b :: left).take n) := rfl
      rw [hleft, hstep, ← hleft, writeCounted, if_pos hlt', hrequest]
      by_cases hn : n = 0
      · rw [if_pos hn, if_pos (by rw [hn, Nat.zero_min])]
      · have hres : min n (writelen - writtenSoFar) ≠ 0 := by omega
        have ih := ih (writtenSoFar + min n (writelen - writtenSoFar))
          (sent ++ (buf.drop writtenSoFar).take (min n (writelen - writtenSoFar))) (by omega)
        rw [if_neg hn, if_neg hres, List.take_take, drop_left, ih]

end Loop

/-! ## WrappedWrite -/

/-- For a length that is not positive nothing is done. -/
theorem writeCounted_nonpos {buf : List UInt8} {writelen : ℤ} (h : writelen ≤ 0)
    (writes : List WriteOutcome) (sent : List UInt8) :
    writeCounted buf writelen writes 0 sent = (0, sent, writes) := by
  have hrequest : (writelen - (0 : ℕ)).toNat = 0 := by omega
  rw [writeCounted.eq_def]
  cases writes with
  | nil =>
    dsimp only
    rw [hrequest, List.take_zero, List.append_nil]
  | cons outcome writes =>
    dsimp only
    rw [if_neg (by omega)]

/-- What a call of `WrappedWrite` does: it returns `r`, between 0 and `writelen`, and the
first `r` bytes of the buffer are sent, in order. -/
structure WritesFront (buf : List UInt8) (writelen : ℤ) (socket : Socket) (r : ℕ)
    (used : List WriteOutcome) (socket' : Socket) : Prop where
  /-- the call -/
  returns : (wrappedWriteCounted buf writelen).Returns socket r socket'
  /-- not more than asked for -/
  bound : (r : ℤ) ≤ writelen
  /-- the bytes that were accepted -/
  sent : socket'.sent = socket.sent ++ buf.take r
  /-- the calls of `write` -/
  calls : socket.writes = used ++ socket'.writes
  /-- it is all written unless the last of them failed or accepted nothing -/
  complete : (r : ℤ) = writelen ∨ endsEarly used
  /-- nothing is read -/
  reads : socket'.reads = socket.reads

theorem wrappedWriteCounted_spec (buf : List UInt8) (writelen : ℕ) (socket : Socket) :
    ∃ r used socket', WritesFront buf writelen socket r used socket' ∧
      (r = writelen ↔ carries socket.writes writelen = true) := by
  obtain ⟨r, used, writes', hto⟩ := writeCounted_spec buf writelen socket.writes 0 socket.sent
    (Nat.zero_le _)
  have hresult := hto.result
  have hcarried := hto.carried
  rw [List.drop_zero, Nat.sub_zero] at hresult
  rw [Nat.sub_zero] at hcarried
  refine ⟨r, used, { socket with writes := writes', sent := socket.sent ++ buf.take r },
    ⟨?_, Int.ofNat_le.mpr hto.bound, rfl, hto.calls, ?_, rfl⟩, hcarried⟩
  · rw [Run.Returns, wrappedWriteCounted, hresult]
  · exact hto.complete.imp_left fun heq => by rw [heq]

/-- Both models of `WrappedWrite` are the same on what the buffer has. -/
theorem wrappedWrite_eq_counted {buf : List UInt8} {writelen : ℤ} (h : writelen ≤ buf.length) :
    wrappedWrite buf writelen = wrappedWriteCounted buf writelen := by
  funext socket
  rcases Int.le_total writelen 0 with hneg | hpos
  · rw [wrappedWrite, wrappedWriteCounted, writeCounted_nonpos hneg, Int.toNat_of_nonpos hneg,
      List.take_zero, writeLoop]
    simp
  · obtain ⟨n, rfl⟩ := Int.eq_ofNat_of_zero_le hpos
    have hbuf : n ≤ buf.length := Int.ofNat_le.mp h
    have hloop := writeLoop_eq_counted buf n socket.writes hbuf 0 socket.sent (Nat.zero_le n)
    obtain ⟨r, used, writes', hto⟩ := writeCounted_spec buf n socket.writes 0 socket.sent
      (Nat.zero_le _)
    rw [List.drop_zero, Nat.sub_zero] at hloop
    rw [wrappedWrite, wrappedWriteCounted, Int.toNat_natCast, hloop, hto.result]
    have hr := hto.bound
    simp
    omega

/-! ## WriteResponse -/

/-- A length that fits 32 bits is converted to itself, or to a negative number. -/
theorem toInt_of_lt_pow {n : ℕ} (h : n < 2 ^ 32) (hnonneg : 0 ≤ toInt n) : toInt n = n := by
  unfold toInt at hnonneg ⊢
  rw [Int.bmod_def] at hnonneg ⊢
  split at hnonneg <;> split <;> omega

theorem toInt_lt (n : ℕ) : toInt n < 2 ^ 31 := by
  unfold toInt
  rw [Int.bmod_def]
  split <;> omega

theorem toInt_le (n : ℕ) : toInt n ≤ n := by
  unfold toInt
  rw [Int.bmod_def]
  split <;> omega

/-- `WriteResponse` returns true exactly if the complete response string has been sent. -/
def ReportsComplete (response : HttpResponse) (socket : Socket) : Prop :=
  ∃ res socket', (writeResponse response).Returns socket res socket' ∧
    (res = true ↔ socket'.sent = socket.sent ++ generateResponseString response)

/-- `WriteResponse` compares what `WrappedWrite` returns with the converted length. -/
theorem writeResponse_of_counted {response : HttpResponse} {socket socket' : Socket} {r : ℤ}
    (h : (wrappedWriteCounted (generateResponseString response)
      (toInt (generateResponseString response).length)).Returns socket r socket') :
    (writeResponse response).Returns socket
      (decide (r = toInt (generateResponseString response).length)) socket' := by
  rw [← wrappedWrite_eq_counted (toInt_le _)] at h
  rw [Run.Returns, writeResponse, Run.bind_ok h]
  rfl

/-- A call returns once. -/
theorem reportsComplete_iff_of_returns {response : HttpResponse} {socket socket' : Socket}
    {res : Bool} (h : (writeResponse response).Returns socket res socket') :
    ReportsComplete response socket ↔
      (res = true ↔ socket'.sent = socket.sent ++ generateResponseString response) := by
  refine ⟨fun ⟨res', socket'', h', hiff⟩ => ?_, fun hiff => ⟨res, socket', h, hiff⟩⟩
  obtain ⟨rfl, rfl⟩ := h.unique h'
  exact hiff

/-- Sending the front of a string is sending it all exactly if the front is all of it. -/
theorem sent_take_iff {sent str : List UInt8} {r : ℕ} :
    sent ++ str.take r = sent ++ str ↔ str.length ≤ r := by
  rw [List.append_cancel_left_eq, List.take_eq_self_iff]

/-- The report is right exactly if the length fits 32 bits, or is converted to a negative
number, or the connection does not even carry as many bytes as it is converted to. -/
theorem reportsComplete_iff (response : HttpResponse) (socket : Socket) :
    ReportsComplete response socket ↔
      ((generateResponseString response).length < 2 ^ 32 ∨
        toInt (generateResponseString response).length < 0 ∨
        carries socket.writes (toInt (generateResponseString response).length).toNat = false) := by
  have hne := generateResponseString_ne response
  have hcall : ∀ (r : ℤ) (socket' : Socket),
      (wrappedWriteCounted (generateResponseString response)
        (toInt (generateResponseString response).length)).Returns socket r socket' →
      (writeResponse response).Returns socket
        (decide (r = toInt (generateResponseString response).length)) socket' :=
    fun _ _ => writeResponse_of_counted
  have hfits := fun hlt => toInt_of_lt_pow (n := (generateResponseString response).length) hlt
  have hsmall := toInt_lt (generateResponseString response).length
  revert hne hcall hfits hsmall
  generalize hstr : generateResponseString response = str
  generalize toInt str.length = writelen
  intro hne hcall hfits hsmall
  rcases Int.lt_or_le writelen 0 with hneg | hpos
  · -- nothing is written, and 0 is not the converted length
    have hrun : (wrappedWriteCounted str writelen).Returns socket (0 : ℕ) socket := by
      rw [Run.Returns, wrappedWriteCounted, writeCounted_nonpos (Int.le_of_lt hneg)]
    rw [reportsComplete_iff_of_returns (hcall _ _ hrun), hstr]
    have hres : (0 : ℤ) ≠ writelen := by omega
    simp [hneg, hres, hne]
  · obtain ⟨n, rfl⟩ := Int.eq_ofNat_of_zero_le hpos
    obtain ⟨r, used, socket', hfront, hcarried⟩ := wrappedWriteCounted_spec str n socket
    have hle : r ≤ n := Int.ofNat_le.mp hfront.bound
    rw [reportsComplete_iff_of_returns (hcall _ _ hfront.returns), hstr, hfront.sent,
      sent_take_iff, decide_eq_true_iff, Int.natCast_inj, hcarried, Int.toNat_natCast]
    by_cases hlt : str.length < 2 ^ 32
    · have heq : (n : ℤ) = str.length := hfits hlt hpos
      rw [← hcarried]
      simp only [hlt, true_or, iff_true]
      omega
    · have hshort : ¬ str.length ≤ r := by omega
      have hnonneg : ¬ ((n : ℤ) < 0) := by omega
      rw [or_iff_right hlt, or_iff_right hnonneg, iff_false_intro hshort, iff_false,
        Bool.not_eq_true]

/-! ## Both -/

/-- For every buffer and every sequence of outcomes of `write`, `WrappedWrite` sends the front
of the buffer and returns how long that is, all of it unless a call failed or accepted
nothing. The report of `WriteResponse` is right under the condition of `reportsComplete_iff`. -/
theorem partial_writes_iff (buf : List UInt8) (response : HttpResponse) (socket : Socket) :
    (∃ r used socket', WritesFront buf buf.length socket r used socket') ∧
      (ReportsComplete response socket ↔
        ((generateResponseString response).length < 2 ^ 32 ∨
          toInt (generateResponseString response).length < 0 ∨
          carries socket.writes
            (toInt (generateResponseString response).length).toNat = false)) := by
  obtain ⟨r, used, socket', hfront, -⟩ := wrappedWriteCounted_spec buf buf.length socket
  exact ⟨⟨r, used, socket', hfront⟩, reportsComplete_iff response socket⟩

/-- Short writes and an interruption, and then the connection is gone. -/
example : wrappedWriteCounted (ascii "hello") 5
    ⟨[], [.accepts 2, .retry, .accepts 1, .fatal], []⟩ = .ok (3, ⟨[], [], ascii "hel"⟩) := by
  decide

/-- The answer to a request for a text file of so many letters. -/
def longPage (n : ℕ) : HttpResponse := fileFound (ascii "txt") (List.replicate n 97)

theorem length_longPage (n : ℕ) :
    (generateResponseString (longPage n)).length = n + (decimal n).length + 61 := by
  have hheaders : (longPage n).headers = [(ascii "Content-type", ascii "text.txt")] := rfl
  have hcode : (decimal 200).length = 3 := by decide
  rw [generateResponseString, hheaders]
  simp [longPage, fileFound, ascii, crlf, hcode]
  omega

/-- The longest file that `ReadFile` can return, and a client that takes everything: 70 bytes
are sent, not even the whole header, and the response is reported as written. -/
theorem longest_file_cut : ¬ ReportsComplete (longPage (2 ^ 32 - 1)) ⟨[], [], []⟩ := by
  have hdigits : (decimal (2 ^ 32 - 1)).length = 10 := by decide
  have hint : toInt (2 ^ 32 - 1 + 10 + 61) = 70 := by decide
  rw [reportsComplete_iff, length_longPage, hdigits, hint]
  simp [carries]

end MultithreadedWebServer
