import McpWebSearch.Server

/-!
# `Correctness.ReadLine` — `read_line_capped` reads the first line, whatever the chunks

The loop sees the stream in chunks; its result is a function of the bytes alone. `Reads max total` is that
function as a relation, with `total` the bytes of the line accumulated so far followed by those still in the
stream; `readLoop_reads` shows the loop to be in it by induction on the events, where the accumulated part
never holds a newline. The cap is kept by every iteration (`iterate_length_le`).
-/

namespace McpWebSearch
namespace Server

open Utf8 Framing

/-- The bytes of one event. -/
def ReadEvent.bytes : ReadEvent → Bytes
  | .chunk b bs => b :: bs
  | .interrupted => []
  | .failed _ => []

/-- The bytes that remain in a stream. -/
def streamBytes (es : List ReadEvent) : Bytes := es.flatMap ReadEvent.bytes

/-- No read fails for another reason than an interrupt. -/
def NoFailure (es : List ReadEvent) : Prop := ∀ e, ReadEvent.failed e ∉ es

@[simp] theorem streamBytes_nil : streamBytes [] = [] := rfl

@[simp] theorem streamBytes_putBack (unread : Bytes) (es : List ReadEvent) :
    streamBytes (putBack unread es) = unread ++ streamBytes es := by
  cases unread with
  | nil => rfl
  | cons b bs => rfl

theorem NoFailure.tail {e : ReadEvent} {es : List ReadEvent} (h : NoFailure (e :: es)) :
    NoFailure es := fun err hmem => h err (List.mem_cons_of_mem e hmem)

theorem NoFailure.putBack {es : List ReadEvent} (h : NoFailure es) (unread : Bytes) :
    NoFailure (putBack unread es) := by
  cases unread with
  | nil => exact h
  | cons b bs =>
      intro err hmem
      rcases List.mem_cons.mp hmem with heq | htail
      · exact absurd heq (by simp)
      · exact h err htail

variable {max : Nat} {buf : Bytes} {es : List ReadEvent}

/-! ## One iteration -/

/-- **Inversion of an iteration on a chunk.** Either the chunk ends the line, within the cap or beyond it, or
    it is all part of the line, again within the cap or beyond it. -/
theorem iterate_chunk_cases (max : Nat) (buf : Bytes) (b : UInt8) (bs : Bytes) :
    (∃ p q, newline ∉ p ∧ b :: bs = p ++ newline :: q ∧
      iterate max buf (.chunk b bs) =
        if buf.length + p.length + 1 > max then .tooLong q else .complete (buf ++ p ++ [newline]) q) ∨
    (newline ∉ b :: bs ∧
      iterate max buf (.chunk b bs) =
        if buf.length + (b :: bs).length > max then .tooLong [] else .again (buf ++ b :: bs)) := by
  cases hidx : (b :: bs).findIdx? (· == newline) with
  | some idx =>
      obtain ⟨p, q, hp, rfl, hcut⟩ := findIdx?_eq_some_cut hidx
      refine .inl ⟨p, q, hp, hcut, ?_⟩
      have htake : (b :: bs).take (p.length + 1) = p ++ [newline] := by
        rw [hcut, ← List.singleton_append, ← List.append_assoc]
        exact List.take_left' (by simp)
      have hdrop : (b :: bs).drop (p.length + 1) = q := by
        rw [hcut, ← List.singleton_append, ← List.append_assoc]
        exact List.drop_left' (by simp)
      simp only [iterate, hidx, htake, hdrop, List.append_assoc]
  | none =>
      refine .inr ⟨not_mem_of_findIdx?_eq_none hidx, ?_⟩
      simp only [iterate, hidx, List.drop_length]

/-- No iteration lets the buffer grow beyond the cap. -/
theorem iterate_length_le {e : ReadEvent} {buf' : Bytes} (hle : buf.length ≤ max)
    (h : iterate max buf e = .again buf' ∨ ∃ unread, iterate max buf e = .complete buf' unread) :
    buf'.length ≤ max := by
  cases e with
  | interrupted =>
      obtain rfl : buf = buf' := by simpa [iterate] using h
      exact hle
  | failed err => exact absurd h (by simp [iterate])
  | chunk b bs =>
      rcases iterate_chunk_cases max buf b bs with ⟨p, q, -, -, heq⟩ | ⟨-, heq⟩
      · rw [heq] at h
        by_cases hcap : buf.length + p.length + 1 > max
        · rw [if_pos hcap] at h
          exact absurd h (by simp)
        · rw [if_neg hcap] at h
          obtain ⟨rfl, -⟩ : buf ++ p ++ [newline] = buf' ∧ q = q := by simpa using h
          simp only [List.length_append, List.length_singleton]
          omega
      · rw [heq] at h
        by_cases hcap : buf.length + (b :: bs).length > max
        · rw [if_pos hcap] at h
          exact absurd h (by simp)
        · rw [if_neg hcap] at h
          obtain rfl : buf ++ b :: bs = buf' := by simpa using h
          rw [List.length_append]
          omega

/-- **The cap holds at every moment**: whatever the chunks, the buffer never exceeds it. -/
theorem bufferTrace_length_le (hle : buf.length ≤ max) :
    ∀ b ∈ bufferTrace max buf es, b.length ≤ max := by
  induction es generalizing buf with
  | nil =>
      intro b hb
      rw [List.mem_singleton.mp hb]
      exact hle
  | cons e es ih =>
      intro b hb
      rw [bufferTrace] at hb
      rcases List.mem_cons.mp hb with rfl | hb
      · exact hle
      · cases hit : iterate max buf e with
        | again buf' =>
            rw [hit] at hb
            exact ih (iterate_length_le hle (.inl hit)) b hb
        | complete buf' unread =>
            rw [hit] at hb
            rw [List.mem_singleton.mp hb]
            exact iterate_length_le hle (.inr ⟨unread, hit⟩)
        | tooLong unread =>
            rw [hit] at hb
            exact absurd hb (by simp)
        | failed err =>
            rw [hit] at hb
            exact absurd hb (by simp)

/-- The buffer a read leaves is one of those it went through. -/
theorem readLoop_buf_mem_bufferTrace : (readLoop max buf es).2.1 ∈ bufferTrace max buf es := by
  induction es generalizing buf with
  | nil =>
      rw [readLoop, bufferTrace]
      split <;> exact List.mem_singleton_self buf
  | cons e es ih =>
      rw [readLoop, bufferTrace]
      cases hit : iterate max buf e with
      | again buf' => exact List.mem_cons_of_mem buf ih
      | complete buf' unread => exact List.mem_cons_of_mem buf (List.mem_singleton_self buf')
      | tooLong unread => exact List.mem_cons_self
      | failed err => exact List.mem_cons_self

/-! ## The whole loop -/

/-- What reading a line out of the bytes `total` comes to: end of stream, the first line with the rest left
    in the stream, or a refusal. -/
inductive Reads (max : Nat) (total : Bytes) : Except Text LineRead × Bytes × List ReadEvent → Prop
  | eof : total = [] → Reads max total (.ok .eof, [], [])
  | line (rest : List ReadEvent) : total ≠ [] → (firstLine newline total).length ≤ max →
      firstLine newline total ++ streamBytes rest = total → NoFailure rest →
      Reads max total (.ok .line, firstLine newline total, rest)
  | tooLong (buf : Bytes) (rest : List ReadEvent) : max < (firstLine newline total).length →
      Reads max total (.ok .tooLong, buf, rest)

/-- **Run lemma.** The loop reads the first line of what it has accumulated and what is still to come. -/
theorem readLoop_reads (hbuf : newline ∉ buf) (hle : buf.length ≤ max) (hok : NoFailure es) :
    Reads max (buf ++ streamBytes es) (readLoop max buf es) := by
  -- `buf` grows along the events and never holds a newline, so the first line is still open
  induction es generalizing buf with
  | nil =>
      rw [readLoop, streamBytes_nil, List.append_nil]
      cases buf with
      | nil => exact .eof rfl
      | cons b bs =>
          have hline := firstLine_unterminated hbuf
          have hreads : Reads max (b :: bs) (.ok .line, firstLine newline (b :: bs), []) :=
            .line [] (by simp) (by rwa [hline]) (by rw [hline]; simp) (by intro e; simp)
          rwa [hline] at hreads
  | cons e es ih =>
      have htail := hok.tail
      cases e with
      | interrupted => exact ih hbuf hle htail
      | failed err => exact absurd List.mem_cons_self (hok err)
      | chunk b bs =>
          have hstream : streamBytes (.chunk b bs :: es) = b :: bs ++ streamBytes es := rfl
          rcases iterate_chunk_cases max buf b bs with ⟨p, q, hp, hcut, heq⟩ | ⟨hno, heq⟩
          · -- the newline is in this chunk: the line is `buf ++ p ++ [newline]`
            have htotal : buf ++ streamBytes (.chunk b bs :: es)
                = (buf ++ p) ++ newline :: (q ++ streamBytes es) := by
              rw [hstream, hcut]
              simp
            have hline : firstLine newline ((buf ++ p) ++ newline :: (q ++ streamBytes es))
                = buf ++ p ++ [newline] := firstLine_terminated _ (by simp [hbuf, hp])
            rw [htotal, readLoop, heq]
            by_cases hcap : buf.length + p.length + 1 > max
            · rw [if_pos hcap]
              refine .tooLong buf _ ?_
              rw [hline, List.length_append, List.length_append]
              exact hcap
            · rw [if_neg hcap, ← hline]
              refine .line _ (by simp) ?_ ?_ (htail.putBack q)
              · rw [hline]
                simp only [List.length_append, List.length_singleton]
                omega
              · rw [hline, streamBytes_putBack]
                simp
          · -- the whole chunk belongs to the line
            have hno' : newline ∉ buf ++ b :: bs := by
              rw [List.mem_append, not_or]
              exact ⟨hbuf, hno⟩
            rw [hstream, ← List.append_assoc, readLoop, heq]
            by_cases hcap : buf.length + (b :: bs).length > max
            · rw [if_pos hcap]
              refine .tooLong buf _ ?_
              rw [firstLine_append _ hno', List.length_append, List.length_append]
              omega
            · rw [if_neg hcap]
              refine ih hno' ?_ htail
              rw [List.length_append]
              omega

/-- What `read_line_capped` returns is what `Reads` allows, and a line is left decoded in `out`. -/
theorem readLineCapped_reads {r r' : LineReader} {res : Except Text LineRead}
    (hok : NoFailure r.reader) (h : r.readLineCapped max = (res, r')) :
    Reads max (streamBytes r.reader) (res, r'.buf, r'.reader) ∧
      (res = .ok .line → r'.out = fromUtf8Lossy r'.buf) := by
  have hreads : Reads max ([] ++ streamBytes r.reader) (readLoop max [] r.reader) :=
    readLoop_reads List.not_mem_nil (Nat.zero_le max) hok
  rw [List.nil_append] at hreads
  rw [LineReader.readLineCapped] at h
  rcases hloop : readLoop max [] r.reader with ⟨res', buf, rest⟩
  rw [hloop] at hreads h
  cases hreads with
  | eof htotal =>
      obtain ⟨rfl, rfl⟩ := Prod.mk.inj h
      exact ⟨.eof htotal, fun hline => absurd hline (by simp)⟩
  | line rest hne hle happ hnf =>
      obtain ⟨rfl, rfl⟩ := Prod.mk.inj h
      refine ⟨.line rest hne hle happ hnf, ?_⟩
      intro _
      dsimp only
      split
      · rename_i s hs
        exact (fromUtf8Lossy_eq hs).symm
      · rfl
  | tooLong buf rest hlong =>
      obtain ⟨rfl, rfl⟩ := Prod.mk.inj h
      exact ⟨.tooLong buf rest hlong, fun hline => absurd hline (by simp)⟩

/-- **A line of text is handed over as it was written**, wherever the chunks cut it. -/
theorem readLineCapped_text {r : LineReader} {t : Text} {rest : Bytes} (hok : NoFailure r.reader) (ht : '\n' ∉ t)
    (hstream : streamBytes r.reader = bytes (t ++ ['\n']) ++ rest) (hle : byteLen t + 1 ≤ max) :
    ∃ r', r.readLineCapped max = (.ok .line, r') ∧ r'.out = t ++ ['\n'] ∧ streamBytes r'.reader = rest := by
  have hterm : bytes (t ++ ['\n']) = bytes t ++ [newline] := bytes_append t ['\n']
  have hno : newline ∉ bytes t := mt (mem_bytes_ofNat_iff (by decide)).mp ht
  have hline : firstLine newline (streamBytes r.reader) = bytes (t ++ ['\n']) := by
    rw [hstream, hterm, List.append_assoc, List.singleton_append, firstLine_terminated rest hno]
  have hlen : (firstLine newline (streamBytes r.reader)).length = byteLen t + 1 := by
    rw [hline, hterm, List.length_append, length_bytes, List.length_singleton]
  obtain ⟨hreads, hout⟩ := readLineCapped_reads hok (Prod.mk.eta (p := r.readLineCapped max)).symm
  rcases hrun : r.readLineCapped max with ⟨res, rest', buf, out⟩
  rw [hrun] at hreads hout
  cases hreads with
  | eof htotal =>
      rw [htotal, firstLine_nil] at hlen
      exact absurd hlen (by simp)
  | line rest' _ _ happ _ =>
      refine ⟨_, rfl, ?_, ?_⟩
      · rw [hout rfl]
        show fromUtf8Lossy (firstLine newline (streamBytes r.reader)) = t ++ ['\n']
        rw [hline, fromUtf8Lossy_bytes]
      · rw [hline, hstream] at happ
        exact List.append_cancel_left happ
  | tooLong buf rest' hlong => omega

/-- **`read_line_capped` does not depend on the chunks.** It reports end of stream exactly when no byte is
    left; otherwise it reads and decodes the first line and leaves the rest, or refuses the line if it is
    longer than the cap; and the buffer never exceeds the cap. -/
theorem readLineCapped_first_line (r r' : LineReader) (res : Except Text LineRead) (max : Nat)
    (hok : NoFailure r.reader) (h : r.readLineCapped max = (res, r')) :
    (res = .ok .eof ↔ streamBytes r.reader = []) ∧
    (streamBytes r.reader ≠ [] →
      (firstLine newline (streamBytes r.reader)).length ≤ max →
        res = .ok .line ∧
        r'.out = fromUtf8Lossy (firstLine newline (streamBytes r.reader)) ∧
        firstLine newline (streamBytes r.reader) ++ streamBytes r'.reader = streamBytes r.reader) ∧
    (streamBytes r.reader ≠ [] →
      max < (firstLine newline (streamBytes r.reader)).length → res = .ok .tooLong) ∧
    (∀ b ∈ bufferTrace max [] r.reader, b.length ≤ max) := by
  obtain ⟨rest, buf, out⟩ := r'
  obtain ⟨hreads, hout⟩ := readLineCapped_reads hok h
  have hcap : ∀ b ∈ bufferTrace max [] r.reader, b.length ≤ max :=
    bufferTrace_length_le (Nat.zero_le max)
  cases hreads with
  | eof htotal =>
      refine ⟨⟨fun _ => htotal, fun _ => rfl⟩, ?_, ?_, hcap⟩
      · exact fun hne _ => absurd htotal hne
      · exact fun hne _ => absurd htotal hne
  | line rest hne hle happ hnf =>
      refine ⟨⟨fun heof => absurd heof (by simp), fun hnil => absurd hnil hne⟩, ?_, ?_, hcap⟩
      · exact fun _ _ => ⟨rfl, hout rfl, happ⟩
      · intro _ hlong
        omega
  | tooLong buf rest hlong =>
      have hne : streamBytes r.reader ≠ [] := by
        intro hnil
        rw [hnil, firstLine_nil] at hlong
        exact absurd hlong (by simp)
      refine ⟨⟨fun heof => absurd heof (by simp), fun hnil => absurd hnil hne⟩, ?_, ?_, hcap⟩
      · intro _ hle
        omega
      · exact fun _ _ => rfl

/-- A character split across two chunks, an interrupt between them, and stale buffers. -/
theorem readLineCapped_first_line_split :
    ∃ r',
      LineReader.readLineCapped
          ⟨[.chunk 0x61 [0xC3], .interrupted, .chunk 0xA9 [10, 0x62]], [0x7A], ['z']⟩ 4 =
        (.ok .line, r') ∧ r'.out = ['a', 'é', '\n'] := by
  have hok : NoFailure [.chunk 0x61 [0xC3], .interrupted, .chunk 0xA9 [10, 0x62]] := by
    intro e
    simp
  have h := readLineCapped_first_line
    ⟨[.chunk 0x61 [0xC3], .interrupted, .chunk 0xA9 [10, 0x62]], [0x7A], ['z']⟩ _ _ 4 hok rfl
  exact ⟨_, rfl, (h.2.1 (by decide) (by decide)).2.1.trans (by decide)⟩

end Server
end McpWebSearch
