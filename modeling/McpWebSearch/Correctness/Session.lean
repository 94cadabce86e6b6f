import McpWebSearch.Correctness.Stdio

/-!
# `Correctness.Session` — the stdio session when a read fails, and what it keeps between lines

A read that fails ends the session wherever it comes: `FailingRead` is what the read loop makes of such a stream, and
`runLoop_read_failure` follows the lines up to it by induction on the bytes before it. The buffers a session carries from line to
line are bounded at every head of its loop (`Head`), by induction on the lines read.
-/

namespace McpWebSearch
namespace Server

open Utf8 Framing

variable {rt : Runtime} {config : Config} {process : Nat → Process} {max : Nat} {err : Text} {post : List ReadEvent}

/-! ## A read that fails -/

theorem putBack_append (unread : Bytes) (es es' : List ReadEvent) : putBack unread es ++ es' = putBack unread (es ++ es') := by
  cases unread with
  | nil => rfl
  | cons b bs => rfl

/-- What reading a line comes to if a read fails after the bytes `total`: a line that is complete before, a refusal, or the
    failure, in the middle of a line within the cap. -/
inductive FailingRead (max : Nat) (total : Bytes) (err : Text) (post : List ReadEvent) :
    Except Text LineRead × Bytes × List ReadEvent → Prop
  | line (p : Bytes) (rest : List ReadEvent) : newline ∉ p → total = p ++ newline :: streamBytes rest → p.length + 1 ≤ max →
      NoFailure rest → FailingRead max total err post (.ok .line, p ++ [newline], rest ++ .failed err :: post)
  | tooLong (buf : Bytes) (rest : List ReadEvent) : max < (firstLine newline total).length →
      FailingRead max total err post (.ok .tooLong, buf, rest)
  | failed (buf : Bytes) : newline ∉ total → total.length ≤ max → FailingRead max total err post (.error err, buf, post)

/-- **Run lemma** of the read loop on a stream that fails. -/
theorem readLoop_failing {buf : Bytes} {es : List ReadEvent} (hbuf : newline ∉ buf) (hle : buf.length ≤ max)
    (hok : NoFailure es) : FailingRead max (buf ++ streamBytes es) err post (readLoop max buf (es ++ .failed err :: post)) := by
  -- `buf` grows along the events and never holds a newline
  induction es generalizing buf with
  | nil =>
      rw [streamBytes_nil, List.append_nil]
      exact .failed buf hbuf hle
  | cons e es ih =>
      have htail := hok.tail
      rw [List.cons_append]
      cases e with
      | interrupted => exact ih hbuf hle htail
      | failed err' => exact absurd List.mem_cons_self (hok err')
      | chunk b bs =>
          have hstream : streamBytes (.chunk b bs :: es) = b :: bs ++ streamBytes es := rfl
          rcases iterate_chunk_cases max buf b bs with ⟨p, q, hp, hcut, heq⟩ | ⟨hno, heq⟩
          · -- the newline is in this chunk
            have hclear : newline ∉ buf ++ p := by
              rw [List.mem_append, not_or]
              exact ⟨hbuf, hp⟩
            have htotal : buf ++ streamBytes (.chunk b bs :: es) = (buf ++ p) ++ newline :: streamBytes (putBack q es) := by
              rw [hstream, hcut, streamBytes_putBack]
              simp
            rw [htotal, readLoop, heq]
            by_cases hcap : buf.length + p.length + 1 > max
            · rw [if_pos hcap]
              refine .tooLong buf _ ?_
              rw [firstLine_terminated _ hclear, List.length_append, List.length_append]
              exact hcap
            · rw [if_neg hcap]
              dsimp only
              rw [← putBack_append]
              refine .line (buf ++ p) (putBack q es) hclear rfl ?_ (htail.putBack q)
              rw [List.length_append]
              omega
          · -- the whole chunk belongs to the line
            have hclear : newline ∉ buf ++ b :: bs := by
              rw [List.mem_append, not_or]
              exact ⟨hbuf, hno⟩
            rw [hstream, ← List.append_assoc, readLoop, heq]
            by_cases hcap : buf.length + (b :: bs).length > max
            · rw [if_pos hcap]
              refine .tooLong buf _ ?_
              rw [firstLine_append _ hclear, List.length_append, List.length_append]
              omega
            · rw [if_neg hcap]
              refine ih hclear ?_ htail
              rw [List.length_append]
              omega

/-- A line that the loop completes is left decoded in `out`. -/
theorem readLineCapped_line {r : LineReader} {buf : Bytes} {rest : List ReadEvent}
    (h : readLoop max [] r.reader = (.ok .line, buf, rest)) :
    r.readLineCapped max = (.ok .line, ⟨rest, buf, fromUtf8Lossy buf⟩) := by
  unfold LineReader.readLineCapped
  rw [h]
  dsimp only
  cases htext : fromUtf8? buf with
  | none => rfl
  | some t => rw [fromUtf8Lossy_eq htext]

/-- A line that the session has to answer if a read fails after it: one that is complete, or already too long. -/
def due (max : Nat) (l : Bytes) : Bool := l.getLast? == some newline || decide (max < l.length)

theorem due_terminated (max : Nat) (p : Bytes) : due max (p ++ [newline]) = true := by
  unfold due
  rw [List.getLast?_concat]
  rfl

/-- **Run lemma** of the session on a stream that fails. -/
theorem runLoop_read_failure (fuel n : Nat) (s : Session) {es : List ReadEvent}
    (hreader : s.input.reader = es ++ .failed err :: post) (hok : NoFailure es) (hfuel : (streamBytes es).length < fuel) :
    ∃ s', runLoop rt config process fuel n s = some s' ∧ s'.stdout = s.stdout ++ frame rt (sessionReplies rt config process n
      ((lines newline (streamBytes es)).filter (due config.server.maxRequestBytes))) := by
  induction fuel generalizing n s es with
  | zero => exact absurd hfuel (Nat.not_lt_zero _)
  | succ fuel ih =>
      have hread : FailingRead config.server.maxRequestBytes ([] ++ streamBytes es) err post
          (readLoop config.server.maxRequestBytes [] s.input.reader) := by
        rw [hreader]
        exact readLoop_failing List.not_mem_nil (Nat.zero_le _) hok
      rw [List.nil_append] at hread
      rcases hloop : readLoop config.server.maxRequestBytes [] s.input.reader with ⟨res, buf, rest⟩
      rw [hloop] at hread
      cases hread with
      | failed _ hno hle =>
          have hnone : (lines newline (streamBytes es)).filter (due config.server.maxRequestBytes) = [] := by
            by_cases hnil : streamBytes es = []
            · rw [hnil]
              rfl
            · rw [lines_unterminated hno hnil]
              refine List.filter_eq_nil_iff.mpr fun l hl => ?_
              obtain rfl := List.mem_singleton.mp hl
              unfold due
              rw [Bool.or_eq_true, decide_eq_true_eq, beq_iff_eq]
              rintro (hlast | hlong)
              · exact hno (List.mem_of_getLast? hlast)
              · omega
          refine ⟨{ s with input := ⟨post, buf, []⟩ }, ?_, ?_⟩
          · simp only [runLoop, LineReader.readLineCapped, hloop]
          · rw [hnone]
            exact (List.append_nil _).symm
      | tooLong _ _ hlong =>
          have hne : streamBytes es ≠ [] := by
            intro hnil
            rw [hnil, firstLine_nil] at hlong
            exact absurd hlong (Nat.not_lt_zero _)
          have hdue : due config.server.maxRequestBytes (firstLine newline (streamBytes es)) = true := by
            unfold due
            rw [decide_eq_true hlong, Bool.or_true]
          refine ⟨writeOversizeError rt config.server.maxRequestBytes { s with input := ⟨rest, buf, []⟩ }, ?_, ?_⟩
          · simp only [runLoop, LineReader.readLineCapped, hloop]
          · rw [writeOversizeError_stdout, lines_of_ne_nil hne, List.filter_cons_of_pos hdue, sessionReplies, if_pos hlong]
      | line p rest hp htotal hle hnf =>
          have hfirst : firstLine newline (streamBytes es) = p ++ [newline] := by
            rw [htotal, firstLine_terminated _ hp]
          have hne : streamBytes es ≠ [] := by
            rw [htotal]
            simp
          have hdrop : (streamBytes es).drop (p ++ [newline]).length = streamBytes rest := by
            rw [htotal, List.append_cons p newline (streamBytes rest)]
            exact List.drop_left
          have hlength : (streamBytes es).length = p.length + 1 + (streamBytes rest).length := by
            rw [htotal, List.length_append, List.length_cons]
            omega
          set next : Session := { s with input := ⟨rest ++ .failed err :: post, p ++ [newline], fromUtf8Lossy (p ++ [newline])⟩ }
          obtain ⟨hwrite, hinput⟩ := @processOneLine_spec rt config (process n) next
          obtain ⟨s', hrun, hstdout⟩ := ih (n + 1) (processOneLine rt config (process n) next)
            (by rw [hinput]) hnf (by omega)
          refine ⟨s', ?_, ?_⟩
          · rw [runLoop, readLineCapped_line hloop]
            exact hrun
          · rw [hstdout, hwrite, lines_of_ne_nil hne, hfirst, List.filter_cons_of_pos (due_terminated _ p), hdrop,
              sessionReplies, if_neg (by rw [List.length_append, List.length_singleton]; omega), frame_append,
              List.append_assoc]

/-- **A read that fails ends the session.** Whatever the peer has sent before a read fails, however it was cut into chunks, and
    whatever would come after: the session ends, and it has written what the lines complete by then are owed, up to the first
    that is too long. The line that the failure cuts off gets nothing, unless it was too long already. -/
theorem stdio_read_failure (rt : Runtime) (config : Config) (process : Nat → Process) (es post : List ReadEvent) (err : Text)
    (fuel : Nat) (hok : NoFailure es) (hfuel : (streamBytes es).length < fuel) :
    ∃ s', runStdio rt config process fuel (es ++ .failed err :: post) = some s' ∧
      s'.stdout = frame rt (sessionReplies rt config process 0
        ((lines newline (streamBytes es)).filter (due config.server.maxRequestBytes))) :=
  runLoop_read_failure fuel 0 _ rfl hok hfuel

/-- A line that does not parse, and a ping that a failure cuts off. -/
theorem stdio_read_failure_ping :
    ∃ s', runStdio pingRuntime (Config.default ⟨4, fun _ => .error [], fun _ => []⟩) (fun _ _ => .elapsed) 100
        ([.chunk 120 (bytes "\n\x7b\"jsonrpc\":\"2.0\",\"method\":")] ++ .failed "broken pipe" :: [.chunk 34 (bytes "ping\"\x7d\n")]) =
          some s' ∧
      s'.stdout = frame pingRuntime (sessionReplies pingRuntime (Config.default ⟨4, fun _ => .error [], fun _ => []⟩)
        (fun _ _ => .elapsed) 0 [bytes "x\n"]) :=
  stdio_read_failure pingRuntime (Config.default ⟨4, fun _ => .error [], fun _ => []⟩) (fun _ _ => .elapsed)
    [.chunk 120 (bytes "\n\x7b\"jsonrpc\":\"2.0\",\"method\":")] [.chunk 34 (bytes "ping\"\x7d\n")] "broken pipe" 100
    (by intro e; simp) (by decide)

/-! ## Between the lines -/

/-- The session at a head of its loop, where it has answered `n` lines and reads the next one. -/
inductive Head (rt : Runtime) (config : Config) (process : Nat → Process) (stdin : List ReadEvent) : Nat → Session → Prop
  | start : Head rt config process stdin 0
      { input := { reader := stdin, buf := [], out := [] }, responseBuf := Vec.withCapacity initialRespBuf, stdout := [] }
  | next {n : Nat} {s : Session} {input : LineReader} : Head rt config process stdin n s →
      s.input.readLineCapped config.server.maxRequestBytes = (.ok .line, input) →
      Head rt config process stdin (n + 1) (processOneLine rt config (process n) { s with input := input })

variable {stdin : List ReadEvent} {n : Nat} {s : Session}

/-- The session goes on from each of its heads. -/
theorem Head.runStdio_eq (h : Head rt config process stdin n s) (fuel : Nat) :
    runStdio rt config process (n + fuel) stdin = runLoop rt config process fuel n s := by
  induction h generalizing fuel with
  | start =>
      rw [Nat.zero_add]
      rfl
  | @next n s input _ hread ih =>
      rw [Nat.add_right_comm, Nat.add_assoc, ih (fuel + 1), runLoop, hread]

/-- What the session keeps is bounded: the line by the cap, its text by three times the cap, and the capacity of the response
    buffer by a mebibyte. -/
structure SmallBuffers (max : Nat) (s : Session) : Prop where
  line : s.input.buf.length ≤ max
  text : byteLen s.input.out ≤ 3 * max
  response : s.responseBuf.capacity ≤ 1 <<< 20

theorem capacity_maybeShrinkBuf (buf : Vec) : (maybeShrinkBuf buf).capacity ≤ 1 <<< 20 := by
  unfold maybeShrinkBuf
  split
  · show initialRespBuf ≤ 1 <<< 20
    decide
  · omega

/-- **Step lemma.** -/
theorem smallBuffers_processOneLine (p : Process) (h : SmallBuffers max s) : SmallBuffers max (processOneLine rt config p s) := by
  unfold processOneLine
  rcases lineResponse rt config p s.input.out with ⟨response, isNotification⟩
  cases isNotification with
  | true => exact h
  | false => exact ⟨h.line, h.text, capacity_maybeShrinkBuf _⟩

theorem smallBuffers_line {input : LineReader} (h : SmallBuffers max s) (hread : s.input.readLineCapped max = (.ok .line, input)) :
    SmallBuffers max { s with input := input } := by
  rcases hloop : readLoop max [] s.input.reader with ⟨res, buf, rest⟩
  have hbuf : buf.length ≤ max := by
    have hmem := @readLoop_buf_mem_bufferTrace max [] s.input.reader
    rw [hloop] at hmem
    exact bufferTrace_length_le (Nat.zero_le max) buf hmem
  cases res with
  | error e =>
      unfold LineReader.readLineCapped at hread
      rw [hloop] at hread
      cases (Prod.mk.inj hread).1
  | ok read =>
      cases read with
      | line =>
          rw [readLineCapped_line hloop] at hread
          obtain rfl := (Prod.mk.inj hread).2
          exact ⟨hbuf, Nat.le_trans (byteLen_fromUtf8Lossy_le buf) (Nat.mul_le_mul_left 3 hbuf), h.response⟩
      | eof | tooLong =>
          unfold LineReader.readLineCapped at hread
          rw [hloop] at hread
          cases (Prod.mk.inj hread).1

/-- **A session does not grow.** However many lines it has answered, whatever they were and whatever the responses, at each head
    of its loop a session keeps a line within the cap, its text within three times the cap, and a response buffer of a
    mebibyte at most, however `Vec` grows; and while it reads on, the line never exceeds the cap. -/
theorem stdio_session_bounded (rt : Runtime) (config : Config) (process : Nat → Process) (stdin : List ReadEvent) (n : Nat)
    (s : Session) (h : Head rt config process stdin n s) :
    SmallBuffers config.server.maxRequestBytes s ∧
      (∀ b ∈ bufferTrace config.server.maxRequestBytes [] s.input.reader, b.length ≤ config.server.maxRequestBytes) ∧
      ∀ fuel, runStdio rt config process (n + fuel) stdin = runLoop rt config process fuel n s := by
  refine ⟨?_, bufferTrace_length_le (Nat.zero_le _), h.runStdio_eq⟩
  induction h with
  | start => exact ⟨Nat.zero_le _, Nat.zero_le _, by show initialRespBuf ≤ 1 <<< 20; decide⟩
  | next _ hread ih => exact smallBuffers_processOneLine _ (smallBuffers_line ih hread)

/-- After two lines, of which the second is a notification. -/
theorem stdio_session_bounded_ping :
    ∃ s, Head pingRuntime (Config.default ⟨4, fun _ => .error [], fun _ => []⟩) (fun _ _ => .elapsed)
        [.chunk 120 (bytes "\n\x7b\"jsonrpc\":\"2.0\",\"method\":\"ping\"\x7d\n")] 2 s ∧ SmallBuffers (1024 * 1024) s := by
  have hstart : Head pingRuntime (Config.default ⟨4, fun _ => .error [], fun _ => []⟩) (fun _ _ => .elapsed)
      [.chunk 120 (bytes "\n\x7b\"jsonrpc\":\"2.0\",\"method\":\"ping\"\x7d\n")] 0 _ := .start
  have hhead := (hstart.next rfl).next rfl
  exact ⟨_, hhead, (stdio_session_bounded _ _ _ _ _ _ hhead).1⟩

end Server
end McpWebSearch
