import Mathlib.Data.Finset.Card
import MediaFlow.Lib.Text

/-!
# Downloads from Telegram

`fetch_chunk` and `stream_document_range` of `telegram/session.rs`: a range of a file, from chunks that
begin at multiples of their size. When the connection breaks, the client is replaced and the same
chunk is requested again, six times at most in one stream.

Telegram's answers are a parameter (`TelegramServer`), by the number of the request. `Serves` says that
it has a file and that the requests of a finite set fail.

* `fetchChunk_serves`: what one call comes to, with the failures on the way counted.
* `streamFrom_serves`: the rest of the range from a chunk on, by induction on what remains.
* `streamDocumentRange_exact`: the chunks of a range are its bytes.
-/

open Text ByteString

namespace MediaFlow

/-- `MAX_CHUNK`: what is requested at once. -/
def maxChunk : ℕ := 512 * 1024

/-- `MAX_RECONNECTS`. -/
def maxReconnects : ℕ := 6

/-- What comes of one request. -/
inductive ChunkAnswer
  /-- A read error, or a dropped connection. -/
  | disconnected
  | file (bytes : Bytes)
  | cdnRedirect
  | failed (msg : Str)

/-- Telegram, as a stream sees it: the answers to its requests, by their number and offset, and why a
client that replaces a broken one cannot be had. -/
structure TelegramServer where
  answer : ℕ → BitVec 64 → ChunkAnswer
  reconnectError : ℕ → Option Str

/-- Errors of a stream. -/
inductive StreamError
  | tooManyReconnects (offset : ℕ)
  | reconnectFailed (msg : Str)
  | cdnRedirect
  | invocation (msg : Str)
deriving DecidableEq

def StreamError.message : StreamError → Str
  | tooManyReconnects offset =>
    "Too many DC reconnects (".toList ++ decimal maxReconnects ++ ") at offset ".toList ++ decimal offset
  | reconnectFailed msg => "Reconnect failed: ".toList ++ msg
  | cdnRedirect => "CDN redirect not supported".toList
  | invocation msg => msg

/-- What `fetch_chunk` returns. A chunk has bytes. -/
inductive FetchResult
  | error (e : StreamError)
  | endOfFile
  | chunk (bytes : Bytes) (bytes_ne : bytes ≠ [])

section

variable (server : TelegramServer)

/-- `fetch_chunk`, with the reconnects of the stream so far, and the number of its requests. Both are
returned as well. -/
def fetchChunk (chunkOffset reconnectCount requests : ℕ) : FetchResult × ℕ × ℕ :=
  match server.answer requests (BitVec.ofNat 64 chunkOffset) with
  | .disconnected =>
    if _h : reconnectCount ≥ maxReconnects then
      (.error (.tooManyReconnects chunkOffset), reconnectCount, requests + 1)
    else
      match server.reconnectError requests with
      | some msg => (.error (.reconnectFailed msg), reconnectCount + 1, requests + 1)
      -- retry the same chunk with a fresh client
      | none => fetchChunk chunkOffset (reconnectCount + 1) (requests + 1)
  | .file bytes =>
    (if h : bytes = [] then .endOfFile else .chunk bytes h, reconnectCount, requests + 1)
  | .cdnRedirect => (.error .cdnRedirect, reconnectCount, requests + 1)
  | .failed msg => (.error (.invocation msg), reconnectCount, requests + 1)
termination_by maxReconnects - reconnectCount

/-- The loop of `stream_document_range`. -/
def streamFrom (start last chunkOffset bytesEmitted reconnectCount requests : ℕ) :
    List (Except StreamError Bytes) :=
  let totalNeeded := last - start + 1
  if bytesEmitted ≥ totalNeeded then []
  else
    match fetchChunk server chunkOffset reconnectCount requests with
    | (.error e, _, _) => [.error e]
    | (.endOfFile, _, _) => []
    | (.chunk rawBytes _, reconnectCount, requests) =>
      let eof := rawBytes.length < maxChunk
      let sliceStart := max start chunkOffset
      let sliceEnd := min last (chunkOffset + rawBytes.length - 1)
      let payload :=
        (rawBytes.take (sliceEnd - chunkOffset + 1)).drop (sliceStart - chunkOffset)
      let nextOffset := chunkOffset + rawBytes.length
      -- a chunk that has nothing of the range is passed over
      let (yielded, bytesEmitted) :=
        if sliceStart ≤ sliceEnd then ([.ok payload], bytesEmitted + payload.length)
        else ([], bytesEmitted)
      yielded ++
        if _h : eof ∨ nextOffset > last then []
        else streamFrom start last nextOffset bytesEmitted reconnectCount requests
termination_by last + 1 - chunkOffset
decreasing_by
  have hpos := List.length_pos_of_ne_nil ‹rawBytes ≠ []›
  omega

/-- `stream_document_range`: the bytes from `start` to `last`, both inclusive. -/
def streamDocumentRange (start last : ℕ) : List (Except StreamError Bytes) :=
  streamFrom server start last (start / maxChunk * maxChunk) 0 0 0

end

/-! ### A file on the server -/

/-- A chunk of a file. -/
def chunkAt (file : Bytes) (offset : ℕ) : Bytes := (file.drop offset).take maxChunk

/-- The server has the file. The requests of the set break the connection, and a new one can be had;
all others, if they are aligned and in the file, get their chunk. -/
structure TelegramServer.Serves (server : TelegramServer) (file : Bytes) (failures : Finset ℕ) :
    Prop where
  fails : ∀ k ∈ failures, ∀ offset, maxChunk ∣ offset →
    server.answer k (BitVec.ofNat 64 offset) = .disconnected
  reconnects : ∀ k ∈ failures, server.reconnectError k = none
  serves : ∀ k ∉ failures, ∀ offset < file.length, maxChunk ∣ offset →
    server.answer k (BitVec.ofNat 64 offset) = .file (chunkAt file offset)

section Serves

variable {server : TelegramServer} {file : Bytes} {failures : Finset ℕ}

theorem length_chunkAt (file : Bytes) (offset : ℕ) :
    (chunkAt file offset).length = min maxChunk (file.length - offset) := by
  rw [chunkAt, List.length_take, List.length_drop]

theorem chunkAt_ne_nil {offset : ℕ} (h : offset < file.length) : chunkAt file offset ≠ [] := by
  apply List.ne_nil_of_length_pos
  rw [length_chunkAt]
  exact Nat.lt_min.mpr ⟨by decide, Nat.sub_pos_of_lt h⟩

/-- The failures among the requests before the `k`-th. -/
def failuresBefore (failures : Finset ℕ) (k : ℕ) : ℕ := (failures.filter (· < k)).card

theorem failuresBefore_succ_of_mem {k : ℕ} (h : k ∈ failures) :
    failuresBefore failures (k + 1) = failuresBefore failures k + 1 := by
  have hinsert : failures.filter (· < k + 1) = insert k (failures.filter (· < k)) := by
    ext i
    rw [Finset.mem_filter, Finset.mem_insert, Finset.mem_filter, Nat.lt_succ_iff_lt_or_eq]
    constructor
    · rintro ⟨hi, hlt | rfl⟩
      · exact .inr ⟨hi, hlt⟩
      · exact .inl rfl
    · rintro (rfl | ⟨hi, hlt⟩)
      · exact ⟨h, .inr rfl⟩
      · exact ⟨hi, .inl hlt⟩
  have hnew : k ∉ failures.filter (· < k) := fun hk => (Finset.mem_filter.mp hk).2.false
  rw [failuresBefore, hinsert, Finset.card_insert_of_notMem hnew, failuresBefore]

theorem failuresBefore_succ_of_notMem {k : ℕ} (h : k ∉ failures) :
    failuresBefore failures (k + 1) = failuresBefore failures k := by
  refine congrArg Finset.card (Finset.filter_congr fun i hi => ?_)
  have hne : i ≠ k := fun heq => h (heq ▸ hi)
  omega

theorem failuresBefore_le (k : ℕ) : failuresBefore failures k ≤ failures.card := Finset.card_filter_le _ _

/-- **One call fetches the chunk**, over the failures on the way. -/
theorem fetchChunk_serves (h : server.Serves file failures) (hbudget : failures.card ≤ maxReconnects)
    {offset : ℕ} (hoffset : offset < file.length) (haligned : maxChunk ∣ offset) (k : ℕ) :
    ∃ k', fetchChunk server offset (failuresBefore failures k) k
      = (.chunk (chunkAt file offset) (chunkAt_ne_nil hoffset), failuresBefore failures k', k') := by
  induction hn : maxReconnects - failuresBefore failures k using Nat.strong_induction_on
    generalizing k with
  | _ n ih =>
    by_cases hk : k ∈ failures
    · -- the same chunk is requested again
      have hcount := failuresBefore_succ_of_mem hk
      have hle : failuresBefore failures (k + 1) ≤ failures.card := failuresBefore_le (k + 1)
      obtain ⟨k', hk'⟩ := ih _ (by omega) (k + 1) rfl
      refine ⟨k', ?_⟩
      rw [fetchChunk, h.fails k hk offset haligned]
      dsimp only
      rw [dif_neg (by omega), h.reconnects k hk, ← hcount]
      exact hk'
    · refine ⟨k + 1, ?_⟩
      rw [fetchChunk, h.serves k hk offset hoffset haligned, failuresBefore_succ_of_notMem hk]
      dsimp only
      rw [dif_neg (chunkAt_ne_nil hoffset)]

/-- What is cut out of a chunk. -/
theorem drop_take_chunkAt {offset first last : ℕ} (hfirst : offset ≤ first) (hle : first ≤ last)
    (hlast : last < offset + maxChunk) :
    ((chunkAt file offset).take (last - offset + 1)).drop (first - offset)
      = (file.drop first).take (last + 1 - first) := by
  have hcut : min (last - offset + 1) maxChunk = last - offset + 1 := by omega
  have hfirst' : offset + (first - offset) = first := by omega
  have hlength : last - offset + 1 - (first - offset) = last + 1 - first := by omega
  rw [chunkAt, List.take_take, hcut, List.drop_take, List.drop_drop, hfirst', hlength]

/-- **The rest of a range**, from a chunk on that begins at or before its end. -/
theorem streamFrom_serves (h : server.Serves file failures) (hbudget : failures.card ≤ maxReconnects)
    {start last : ℕ} (hrange : start ≤ last) (hlast : last < file.length) {offset : ℕ}
    (haligned : maxChunk ∣ offset) (hstart : start < offset + maxChunk) (hoffset : offset ≤ last) (k : ℕ) :
    ∃ chunks : List Bytes, streamFrom server start last offset (max start offset - start)
        (failuresBefore failures k) k = chunks.map .ok ∧
      chunks.flatten = (file.drop (max start offset)).take (last + 1 - max start offset) := by
  induction hn : last + 1 - offset using Nat.strong_induction_on generalizing offset k with
  | _ n ih =>
    obtain ⟨k', hfetch⟩ := fetchChunk_serves h hbudget (hoffset.trans_lt hlast) haligned k
    have hlength := length_chunkAt file offset
    have hpos := List.length_pos_of_ne_nil (chunkAt_ne_nil (hoffset.trans_lt hlast))
    -- the part of the range in this chunk
    have hslice : max start offset ≤ min last (offset + (chunkAt file offset).length - 1) := by omega
    have hpayload : ((chunkAt file offset).take
          (min last (offset + (chunkAt file offset).length - 1) - offset + 1)).drop
            (max start offset - offset)
        = (file.drop (max start offset)).take
            (min last (offset + (chunkAt file offset).length - 1) + 1 - max start offset) :=
      drop_take_chunkAt (Nat.le_max_right _ _) hslice (by omega)
    rw [streamFrom]
    dsimp only
    rw [if_neg (by omega), hfetch]
    dsimp only
    rw [if_pos hslice, hpayload]
    dsimp only
    by_cases hend : (chunkAt file offset).length < maxChunk ∨ offset + (chunkAt file offset).length > last
    · -- the last chunk
      rw [dif_pos hend]
      refine ⟨[_], rfl, ?_⟩
      have hmin : min last (offset + (chunkAt file offset).length - 1) = last := by omega
      rw [hmin, List.flatten_cons, List.flatten_nil, List.append_nil]
    · rw [dif_neg hend]
      have hfull : (chunkAt file offset).length = maxChunk := by omega
      rw [hfull] at hend ⊢
      have hmin : min last (offset + maxChunk - 1) = offset + maxChunk - 1 := by omega
      have hnext : max start (offset + maxChunk) = offset + maxChunk := by omega
      have hemitted : max start offset - start + ((file.drop (max start offset)).take
          (offset + maxChunk - 1 + 1 - max start offset)).length
            = max start (offset + maxChunk) - start := by
        -- the file goes on behind a full chunk
        have hmore : offset + maxChunk - 1 + 1 - max start offset ≤ file.length - max start offset := by
          omega
        rw [List.length_take, List.length_drop, Nat.min_eq_left hmore, hnext]
        omega
      have hpos' : 0 < maxChunk := by decide
      obtain ⟨chunks, hchunks, hflatten⟩ := ih (last + 1 - (offset + maxChunk)) (by omega)
        (haligned.add dvd_rfl) (by omega) (by omega) k' rfl
      refine ⟨(file.drop (max start offset)).take (offset + maxChunk - 1 + 1 - max start offset)
        :: chunks, ?_, ?_⟩
      · rw [hmin, hemitted, hchunks]
        rfl
      · -- the two parts are next to each other
        have hcount : last + 1 - max start offset
            = offset + maxChunk - 1 + 1 - max start offset + (last + 1 - max start (offset + maxChunk)) := by
          omega
        have hdrop : max start offset + (offset + maxChunk - 1 + 1 - max start offset)
            = max start (offset + maxChunk) := by omega
        rw [List.flatten_cons, hflatten, hcount, List.take_add, List.drop_drop, hdrop]

/-- **A range is delivered exactly**: the chunks of the stream are its bytes. -/
theorem streamDocumentRange_exact (h : server.Serves file failures)
    (hbudget : failures.card ≤ maxReconnects) {start last : ℕ} (hrange : start ≤ last)
    (hlast : last < file.length) :
    ∃ chunks : List Bytes, streamDocumentRange server start last = chunks.map .ok ∧
      chunks.flatten = (file.drop start).take (last - start + 1) := by
  have hpos : 0 < maxChunk := by decide
  have hle : start / maxChunk * maxChunk ≤ start := Nat.div_mul_le_self start maxChunk
  have hlt : start < start / maxChunk * maxChunk + maxChunk := Nat.lt_div_mul_add hpos
  obtain ⟨chunks, hchunks, hflatten⟩ := streamFrom_serves h hbudget hrange hlast
    (Nat.dvd_mul_left maxChunk _) hlt (hle.trans hrange) 0
  have hbefore : failuresBefore failures 0 = 0 :=
    Finset.card_eq_zero.mpr (Finset.filter_eq_empty_iff.mpr fun _ _ => Nat.not_lt_zero _)
  rw [Nat.max_eq_left hle, Nat.sub_self, hbefore] at hchunks
  rw [Nat.max_eq_left hle, Nat.sub_add_comm hrange] at hflatten
  exact ⟨chunks, hchunks, hflatten⟩

end Serves

/-- A server with a file of four bytes that breaks the connection twice. -/
def flakyServer : TelegramServer where
  answer k offset := if k ∈ ({0, 1} : Finset ℕ) then .disconnected else .file (chunkAt [1, 2, 3, 4] offset.toNat)
  reconnectError _ := none

theorem serves_flakyServer : flakyServer.Serves [1, 2, 3, 4] {0, 1} where
  fails k hk offset _ := if_pos hk
  reconnects _ _ := rfl
  serves k hk offset hoffset _ := by
    have hlt : offset < 2 ^ 64 := hoffset.trans (show 4 < 2 ^ 64 by decide)
    have hanswer : flakyServer.answer k (BitVec.ofNat 64 offset)
        = .file (chunkAt [1, 2, 3, 4] (BitVec.ofNat 64 offset).toNat) := if_neg hk
    rw [hanswer, BitVec.toNat_ofNat, Nat.mod_eq_of_lt hlt]

theorem streamDocumentRange_exact_flaky :
    ∃ chunks : List Bytes, streamDocumentRange flakyServer 1 2 = chunks.map .ok ∧
      chunks.flatten = [2, 3] :=
  streamDocumentRange_exact serves_flakyServer (by decide) (by decide) (by decide)

end MediaFlow
