import Juice.Control.Message

/-!
# The program's side of an import

`begin_file_import` connects to the host and writes a request, and
`poll_file_import` is called until it has the response. The response comes
in whatever pieces the socket gives: what has come is kept between the
calls, and a call returns as soon as there is nothing more to read for now.

A call is made of calls of `recv`, and what these return is a list here: a
call takes from it what it needs, and leaves the rest to the next one. Both
functions run under one lock, so they do not overlap.

The response is read as it is, and its texts end at the first NUL. Where
there is none in the last buffer the text goes on in the memory after the
message, whatever that is.
-/

namespace Juice.Control

open List

variable {response : List UInt8}

def JUICE_IOS_API_VERSION : UInt32 := 1
def JUICE_IOS_PATH_CHARS : ℕ := 1024
def JUICE_IOS_DETAIL_CHARS : ℕ := 256

def JUICE_IOS_STATUS_PENDING : UInt32 := 1
def JUICE_IOS_STATUS_ERROR : UInt32 := 4

/-- The results of the two functions. -/
inductive NtStatus where
  | success
  | revisionMismatch
  | deviceBusy
  | deviceNotConnected
  deriving DecidableEq, Repr

/-- What the functions have from their surroundings. -/
structure Unixlib where
  pid : UInt32
  /-- `ntdll_umbstowcs`, into a buffer of so many characters. -/
  umbstowcs : List UInt8 → ℕ → Option (List UInt16)
  /-- The memory after the response. -/
  beyond : List UInt8

/-- `copy_utf8_to_wide`. -/
def copyUtf8ToWide (sys : Unixlib) (capacity : ℕ) (source : List UInt8) : List UInt16 :=
  if source = [] then [] else (sys.umbstowcs source (capacity - 1)).getD []

/-- What `poll_file_import` stores for its caller. -/
structure PollParams where
  status : UInt32
  path : List UInt16
  detail : List UInt16
  deriving DecidableEq, Repr

/-- The variables of the unix library. `response` is the part of the
response that has come, `response_used` bytes. -/
structure Driver where
  importFd : Option ℕ
  importRequestId : UInt32
  response : List UInt8
  requestSequence : UInt32
  deriving DecidableEq, Repr

/-- The library before its first call. -/
def Driver.start : Driver := ⟨none, 0, [], 0⟩

/-- `close_import`. -/
def closeImport (d : Driver) : Driver :=
  { d with importFd := none, importRequestId := 0, response := [] }

/-! ## Begin -/

/-- What `connect_control_socket` and `write_all` make of a request. -/
inductive Connect where
  | refused
  /-- The write failed after `sent` bytes. -/
  | broken (sent : ℕ)
  | made (fd : ℕ)
  deriving DecidableEq, Repr

/-- The identifier of the next request. -/
def nextRequestId (sys : Unixlib) (d : Driver) : UInt32 :=
  (sys.pid <<< 16) ^^^ (d.requestSequence + 1)

/-- **`begin_file_import`**: its result with the request it stores, what it
has written to a new connection, and the library after it. -/
def beginFileImport (sys : Unixlib) (version filters : UInt32) (connect : Connect) (d : Driver) :
    (NtStatus × UInt32 × UInt32) × Option (List UInt8) × Driver :=
  if version ≠ JUICE_IOS_API_VERSION then
    ((.revisionMismatch, JUICE_IOS_STATUS_ERROR, 0), none, d)
  else if d.importFd.isSome then ((.deviceBusy, JUICE_IOS_STATUS_ERROR, 0), none, d)
  else
    let requestId := nextRequestId sys d
    let wire := (importRequest requestId filters).wire
    let next := { d with requestSequence := d.requestSequence + 1 }
    match connect with
    | .refused => ((.deviceNotConnected, JUICE_IOS_STATUS_ERROR, 0), none, d)
    | .broken sent =>
      ((.deviceNotConnected, JUICE_IOS_STATUS_ERROR, 0), some (wire.take sent), closeImport next)
    | .made fd => ((.success, JUICE_IOS_STATUS_PENDING, requestId), some wire,
        { next with importFd := some fd, importRequestId := requestId })

/-! ## Poll -/

/-- What `recv` returns. `bytes []` is the end of the stream, and what is
more than a call asks for is not taken. -/
inductive Recv where
  | bytes (chunk : List UInt8)
  | eintr
  | eagain
  | failed
  deriving DecidableEq, Repr

/-- How the loop of `poll_file_import` is left. -/
inductive Receipt where
  | pending (response : List UInt8)
  | closed
  | full (response : List UInt8)
  deriving DecidableEq, Repr

/-- **The loop of `poll_file_import`**, with what it leaves of the results;
nothing when it still goes on after all of them. -/
def receive : List Recv → List UInt8 → Option (Receipt × List Recv)
  | [], response => if messageSize ≤ response.length then some (.full response, []) else none
  | r :: rest, response =>
    if messageSize ≤ response.length then some (.full response, r :: rest)
    else match r with
      | .bytes chunk =>
        if chunk = [] then some (.closed, rest)
        else receive rest (response ++ chunk.take (messageSize - response.length))
      | .eintr => receive rest response
      | .eagain => some (.pending response, rest)
      | .failed => some (.closed, rest)

/-- An error with its text. -/
def errorParams (sys : Unixlib) (detail : String) : PollParams :=
  ⟨JUICE_IOS_STATUS_ERROR, [], copyUtf8ToWide sys JUICE_IOS_DETAIL_CHARS (encode detail.toList)⟩

def unmatched (sys : Unixlib) : PollParams := errorParams sys "No matching import request."

def disconnected (sys : Unixlib) : PollParams :=
  errorParams sys "The Juice host closed the control channel."

def invalid (sys : Unixlib) : PollParams := errorParams sys "Invalid response from the Juice host."

def pending : PollParams := ⟨JUICE_IOS_STATUS_PENDING, [], []⟩

/-- What the caller is told of a response. -/
def importResult (sys : Unixlib) (requestId : UInt32) (m : Message) : PollParams :=
  if validMessage m JUICE_CONTROL_IMPORT_RESPONSE ∧ m.requestId = requestId then
    ⟨m.status,
      copyUtf8ToWide sys JUICE_IOS_PATH_CHARS (cString (m.path ++ (m.detail ++ sys.beyond))),
      copyUtf8ToWide sys JUICE_IOS_DETAIL_CHARS (cString (m.detail ++ sys.beyond))⟩
  else invalid sys

/-- **`poll_file_import`.** -/
def pollFileImport (sys : Unixlib) (version requestId : UInt32) (results : List Recv) (d : Driver) :
    Option ((NtStatus × PollParams) × Driver × List Recv) :=
  if version ≠ JUICE_IOS_API_VERSION then
    some ((.revisionMismatch, ⟨JUICE_IOS_STATUS_ERROR, [], []⟩), d, results)
  else if d.importFd = none ∨ requestId ≠ d.importRequestId then
    some ((.success, unmatched sys), d, results)
  else match receive results d.response with
    | none => none
    | some (.pending response, rest) =>
      some ((.success, pending), { d with response := response }, rest)
    | some (.closed, rest) => some ((.success, disconnected sys), closeImport d, rest)
    | some (.full response, rest) =>
      some ((.success, importResult sys requestId (.of response)), closeImport d, rest)

/-! ## The pieces of a response -/

/-- The bytes of a result. -/
def Recv.data : Recv → List UInt8
  | .bytes chunk => chunk
  | _ => []

/-- The loop goes on. -/
def Recv.continues : Recv → Prop
  | .bytes chunk => chunk ≠ []
  | .eintr => True
  | _ => False

/-- The connection is at its end. -/
def Recv.ends : Recv → Prop
  | .bytes chunk => chunk = []
  | .failed => True
  | _ => False

/-- **The bytes of a list of results.** -/
def received (results : List Recv) : List UInt8 := results.flatMap Recv.data

theorem received_cons (r : Recv) (results : List Recv) :
    received (r :: results) = r.data ++ received results := rfl

theorem received_append (a b : List Recv) : received (a ++ b) = received a ++ received b :=
  flatMap_append

theorem take_take_append {α : Type} (l x : List α) (n : ℕ) :
    (l.take n ++ x).take n = (l ++ x).take n := by
  rw [take_append, take_append, take_take, Nat.min_self, length_take]
  rcases Nat.le_total l.length n with h | h
  · rw [Nat.min_eq_right h]
  · rw [Nat.min_eq_left h, Nat.sub_self, Nat.sub_eq_zero_of_le h]

theorem append_take_eq {α : Type} (l x : List α) {n : ℕ} (h : l.length ≤ n) :
    l ++ x.take (n - l.length) = (l ++ x).take n := by
  rw [take_append, take_of_length_le h]

/-- **How the loop is left**, by the results it takes. -/
inductive Received (response : List UInt8) : List Recv → Receipt → Prop where
  | pending {front : List Recv} (hfront : ∀ r ∈ front, r.continues)
      (hshort : (response ++ received front).length < messageSize) :
      Received response (front ++ [.eagain]) (.pending (response ++ received front))
  | closed {front : List Recv} {last : Recv} (hfront : ∀ r ∈ front, r.continues)
      (hlast : last.ends) (hshort : (response ++ received front).length < messageSize) :
      Received response (front ++ [last]) .closed
  | full {used : List Recv} (hused : ∀ r ∈ used, r.continues)
      (hlen : messageSize ≤ (response ++ received used).length) :
      Received response used (.full ((response ++ received used).take messageSize))

/-- A result with which the loop goes on. -/
theorem Received.cons {used : List Recv} {receipt : Receipt} {r : Recv} (hr : r.continues)
    (h : Received ((response ++ r.data).take messageSize) used receipt) :
    Received response (r :: used) receipt := by
  have htake : ∀ {x : List UInt8},
      ((response ++ r.data).take messageSize ++ x).length < messageSize →
      (response ++ r.data).take messageSize = response ++ r.data := by
    intro x hx
    rw [length_append, length_take] at hx
    exact take_of_length_le (by omega)
  have hall : ∀ {front : List Recv}, (∀ r' ∈ front, r'.continues) →
      ∀ r' ∈ r :: front, r'.continues := fun hfront => forall_mem_cons.mpr ⟨hr, hfront⟩
  cases h with
  | @pending front hfront hshort =>
    have hwhole := htake hshort
    rw [hwhole, append_assoc, ← received_cons] at hshort ⊢
    exact .pending (hall hfront) hshort
  | @closed front last hfront hlast hshort =>
    rw [htake hshort, append_assoc, ← received_cons] at hshort
    exact .closed (hall hfront) hlast hshort
  | full hused hlen =>
    rw [take_take_append, append_assoc, ← received_cons]
    refine .full (hall hused) ?_
    rw [received_cons, ← append_assoc, length_append]
    rw [length_append, length_take] at hlen
    omega

theorem received_full (h : response.length = messageSize) :
    Received response [] (.full response) := by
  have hall : response ++ received [] = response := append_nil _
  have hfull : Received response [] (.full ((response ++ received []).take messageSize)) := by
    refine .full (fun _ hr => absurd hr not_mem_nil) ?_
    rw [hall, h]
  rw [hall, ← h, take_length] at hfull
  exact hfull

/-- **The loop of `poll_file_import`.** -/
theorem receive_spec {results : List Recv} {receipt : Receipt} {rest : List Recv}
    (hlen : response.length ≤ messageSize) (h : receive results response = some (receipt, rest)) :
    ∃ used, results = used ++ rest ∧ Received response used receipt := by
  induction results generalizing response with
  | nil =>
    unfold receive at h
    split at h
    · rename_i hle
      obtain ⟨rfl, rfl⟩ := Prod.mk.inj (Option.some.inj h)
      exact ⟨[], rfl, received_full (Nat.le_antisymm hlen hle)⟩
    · exact nomatch h
  | cons r results ih =>
    unfold receive at h
    split at h
    · rename_i hle
      obtain ⟨rfl, rfl⟩ := Prod.mk.inj (Option.some.inj h)
      exact ⟨[], rfl, received_full (Nat.le_antisymm hlen hle)⟩
    · rename_i hlt
      have hshort : (response ++ received []).length < messageSize := by
        rw [show response ++ received [] = response from append_nil _]
        exact Nat.lt_of_not_le hlt
      have hnone : ∀ r ∈ ([] : List Recv), r.continues := fun _ hr => absurd hr not_mem_nil
      cases r with
      | bytes chunk =>
        dsimp only at h
        split at h
        · rename_i hnil
          obtain ⟨rfl, rfl⟩ := Prod.mk.inj (Option.some.inj h)
          exact ⟨[.bytes chunk], rfl, .closed hnone hnil hshort⟩
        · rename_i hchunk
          rw [append_take_eq _ _ hlen] at h
          obtain ⟨used, rfl, hused⟩ := ih (length_take_le _ _) h
          exact ⟨.bytes chunk :: used, rfl, .cons hchunk hused⟩
      | eintr =>
        obtain ⟨used, rfl, hused⟩ := ih hlen h
        refine ⟨.eintr :: used, rfl, .cons trivial ?_⟩
        rw [show response ++ Recv.eintr.data = response from append_nil _,
          take_of_length_le hlen]
        exact hused
      | eagain =>
        obtain ⟨rfl, rfl⟩ := Prod.mk.inj (Option.some.inj h)
        have hpending := Received.pending hnone hshort
        rw [show response ++ received [] = response from append_nil _] at hpending
        exact ⟨[.eagain], rfl, hpending⟩
      | failed =>
        obtain ⟨rfl, rfl⟩ := Prod.mk.inj (Option.some.inj h)
        exact ⟨[.failed], rfl, .closed hnone trivial hshort⟩

/-- **The loop comes to its end** with a result that does not go on, or with
enough bytes. -/
theorem receive_isSome {results : List Recv}
    (h : (∃ r ∈ results, ¬ r.continues) ∨ messageSize ≤ (response ++ received results).length) :
    (receive results response).isSome := by
  induction results generalizing response with
  | nil =>
    rcases h with ⟨r, hr, -⟩ | hlen
    · exact absurd hr not_mem_nil
    · rw [show response ++ received [] = response from append_nil _] at hlen
      unfold receive
      rw [if_pos hlen]
      rfl
  | cons r results ih =>
    unfold receive
    split
    · rfl
    · rename_i hlt
      cases r with
      | bytes chunk =>
        dsimp only
        split
        · rfl
        · rename_i hchunk
          refine ih ?_
          rcases h with ⟨r, hr, hstop⟩ | hlen
          · rcases mem_cons.mp hr with rfl | hr
            · exact absurd hchunk hstop
            · exact .inl ⟨r, hr, hstop⟩
          · right
            rw [append_take_eq _ _ (Nat.le_of_not_le hlt), length_append, length_take]
            rw [received_cons, ← append_assoc, length_append] at hlen
            show _ ≤ min messageSize (response ++ chunk).length + _
            have hsum : messageSize ≤ (response ++ chunk).length + (received results).length := hlen
            omega
      | eintr =>
        refine ih ?_
        rcases h with ⟨r, hr, hstop⟩ | hlen
        · rcases mem_cons.mp hr with rfl | hr
          · exact absurd trivial hstop
          · exact .inl ⟨r, hr, hstop⟩
        · exact .inr hlen
      | eagain => rfl
      | failed => rfl

/-! ## Calls -/

/-- A response is awaited under the identifier `requestId`. -/
structure Driver.Waiting (d : Driver) (requestId : UInt32) : Prop where
  connected : d.importFd.isSome = true
  requestId : d.importRequestId = requestId
  short : d.response.length < messageSize

/-- **How an import ends**, by all results since it was begun: the caller is
told of the whole response, or that the connection came to its end before. -/
inductive Outcome (sys : Unixlib) (requestId : UInt32) (response : List UInt8) :
    List Recv → PollParams → Prop where
  | disconnected {front : List Recv} {last : Recv}
      (hfront : ∀ r ∈ front, r.continues ∨ r = .eagain) (hlast : last.ends)
      (hshort : (response ++ received front).length < messageSize) :
      Outcome sys requestId response (front ++ [last]) (disconnected sys)
  | answered {used : List Recv} (hused : ∀ r ∈ used, r.continues ∨ r = .eagain)
      (hlen : messageSize ≤ (response ++ received used).length) :
      Outcome sys requestId response used
        (importResult sys requestId (.of ((response ++ received used).take messageSize)))

section Calls

variable {sys : Unixlib} {requestId : UInt32} {results rest : List Recv} {d d' : Driver}

/-- **A call of `poll_file_import`** while a response is awaited. -/
theorem pollFileImport_spec {out : NtStatus × PollParams} (hd : d.Waiting requestId)
    (h : pollFileImport sys JUICE_IOS_API_VERSION requestId results d = some (out, d', rest)) :
    out.1 = .success ∧ ∃ used, results = used ++ rest
      ∧ ((out.2 = pending ∧ (∀ r ∈ used, r.continues ∨ r = .eagain)
          ∧ (d.response ++ received used).length < messageSize
          ∧ d' = { d with response := d.response ++ received used })
        ∨ (Outcome sys requestId d.response used out.2 ∧ d' = closeImport d)) := by
  have hmatch : ¬ (d.importFd = none ∨ requestId ≠ d.importRequestId) := by
    rintro (hnone | hne)
    · exact absurd hd.connected (by rw [hnone]; exact Bool.false_ne_true)
    · exact hne hd.requestId.symm
  unfold pollFileImport at h
  rw [if_neg (fun hne => hne rfl), if_neg hmatch] at h
  cases hreceive : receive results d.response with
  | none =>
    rw [hreceive] at h
    exact nomatch h
  | some result =>
    obtain ⟨receipt, rest'⟩ := result
    obtain ⟨used, hresults, hused⟩ := receive_spec (Nat.le_of_lt hd.short) hreceive
    rw [hreceive] at h
    cases hused with
    | @pending front hfront hshort =>
      obtain ⟨rfl, hd', rfl⟩ : _ ∧ _ ∧ _ := by simpa using h
      have hreceived : received (front ++ [.eagain]) = received front := by
        rw [received_append]
        exact append_nil _
      refine ⟨rfl, _, hresults, .inl ⟨rfl, forall_mem_append.mpr
        ⟨fun r hr => .inl (hfront r hr), forall_mem_singleton.mpr (.inr rfl)⟩, ?_, ?_⟩⟩
      · rw [hreceived]
        exact hshort
      · rw [hreceived]
        exact hd'.symm
    | closed hfront hlast hshort =>
      obtain ⟨rfl, rfl, rfl⟩ : _ ∧ _ ∧ _ := by simpa using h
      exact ⟨rfl, _, hresults,
        .inr ⟨.disconnected (fun r hr => .inl (hfront r hr)) hlast hshort, rfl⟩⟩
    | full hused hlen =>
      obtain ⟨rfl, rfl, rfl⟩ : _ ∧ _ ∧ _ := by simpa using h
      exact ⟨rfl, _, hresults, .inr ⟨.answered (fun r hr => .inl (hused r hr)) hlen, rfl⟩⟩

/-- **A call returns** with a result of `recv` that does not go on, or with
enough bytes. -/
theorem pollFileImport_isSome
    (h : (∃ r ∈ results, ¬ r.continues) ∨ messageSize ≤ (d.response ++ received results).length) :
    (pollFileImport sys JUICE_IOS_API_VERSION requestId results d).isSome := by
  unfold pollFileImport
  rw [if_neg (fun hne => hne rfl)]
  split
  · rfl
  · obtain ⟨⟨receipt, rest⟩, hreceive⟩ := Option.isSome_iff_exists.mp (receive_isSome h)
    rw [hreceive]
    cases receipt <;> rfl

/-- A call when nothing is awaited. -/
theorem pollFileImport_idle (hd : d.importFd = none) :
    pollFileImport sys JUICE_IOS_API_VERSION requestId results d
      = some ((.success, unmatched sys), d, results) := by
  unfold pollFileImport
  rw [if_neg (fun hne => hne rfl), if_pos (.inl hd)]

/-- What came before belongs to the import. -/
theorem Outcome.append {response : List UInt8} {front used : List Recv} {out : PollParams}
    (hfront : ∀ r ∈ front, r.continues ∨ r = .eagain)
    (h : Outcome sys requestId (response ++ received front) used out) :
    Outcome sys requestId response (front ++ used) out := by
  have hall : ∀ {others : List Recv}, (∀ r ∈ others, r.continues ∨ r = .eagain) →
      ∀ r ∈ front ++ others, r.continues ∨ r = .eagain :=
    fun hothers => forall_mem_append.mpr ⟨hfront, hothers⟩
  cases h with
  | @disconnected before last hbefore hlast hshort =>
    rw [append_assoc, ← received_append] at hshort
    rw [← append_assoc]
    exact .disconnected (hall hbefore) hlast hshort
  | answered hused hlen =>
    rw [append_assoc, ← received_append] at hlen ⊢
    exact .answered (hall hused) hlen

/-- **Calls of `poll_file_import`**, one after the other. -/
def polls (sys : Unixlib) (requestId : UInt32) :
    ℕ → List Recv → Driver → Option (List PollParams × Driver × List Recv)
  | 0, results, d => some ([], d, results)
  | n + 1, results, d =>
    match pollFileImport sys JUICE_IOS_API_VERSION requestId results d with
    | none => none
    | some (out, d', rest) =>
      (polls sys requestId n rest d').map (fun later => (out.2 :: later.1, later.2))

theorem polls_idle (n : ℕ) (hd : d.importFd = none) :
    polls sys requestId n results d = some (List.replicate n (unmatched sys), d, results) := by
  induction n with
  | zero => rfl
  | succ n ih =>
    unfold polls
    rw [pollFileImport_idle hd]
    show (polls sys requestId n results d).map _ = _
    rw [ih]
    rfl

/-- **The calls since an import was begun.** As long as the response is not
there and the connection is not at its end, they say so. Then one call tells
how it ended, and nothing is awaited any more. -/
theorem polls_spec {n : ℕ} {outs : List PollParams} (hd : d.Waiting requestId)
    (h : polls sys requestId n results d = some (outs, d', rest)) :
    ∃ used, results = used ++ rest
      ∧ ((outs = List.replicate n pending ∧ (∀ r ∈ used, r.continues ∨ r = .eagain)
          ∧ (d.response ++ received used).length < messageSize
          ∧ d' = { d with response := d.response ++ received used })
        ∨ ∃ k m out, outs = List.replicate k pending ++ out :: List.replicate m (unmatched sys)
          ∧ Outcome sys requestId d.response used out ∧ d' = closeImport d) := by
  induction n generalizing results d outs with
  | zero =>
    obtain ⟨rfl, rfl, rfl⟩ : _ ∧ _ ∧ _ := by simpa [polls] using h
    have hnil : d.response ++ received [] = d.response := append_nil _
    refine ⟨[], rfl, .inl ⟨rfl, fun _ hr => absurd hr not_mem_nil, ?_, ?_⟩⟩
    · rw [hnil]
      exact hd.short
    · rw [hnil]
  | succ n ih =>
    unfold polls at h
    cases hpoll : pollFileImport sys JUICE_IOS_API_VERSION requestId results d with
    | none =>
      rw [hpoll] at h
      exact nomatch h
    | some call =>
      obtain ⟨out, d₁, rest₁⟩ := call
      rw [hpoll] at h
      obtain ⟨⟨outs', later⟩, hlater, heq⟩ := Option.map_eq_some_iff.mp h
      obtain ⟨rfl, rfl⟩ := Prod.mk.inj heq
      obtain ⟨-, used, rfl, ⟨hout, hused, hshort, rfl⟩ | ⟨hend, rfl⟩⟩ :=
        pollFileImport_spec hd hpoll
      · have hd' : Driver.Waiting { d with response := d.response ++ received used } requestId :=
          ⟨hd.connected, hd.requestId, hshort⟩
        obtain ⟨used', rfl, ⟨rfl, hused', hshort', rfl⟩ | ⟨k, m, last, rfl, hend, rfl⟩⟩ :=
          ih hd' hlater
        · dsimp only at hshort' ⊢
          rw [append_assoc, ← received_append] at hshort' ⊢
          refine ⟨used ++ used', (append_assoc _ _ _).symm, .inl ⟨?_, ?_, hshort', rfl⟩⟩
          · rw [hout]
            rfl
          · exact forall_mem_append.mpr ⟨hused, hused'⟩
        · refine ⟨used ++ used', (append_assoc _ _ _).symm, .inr ⟨k + 1, m, last, ?_, ?_, rfl⟩⟩
          · rw [hout]
            rfl
          · exact hend.append hused
      · rw [polls_idle n rfl] at hlater
        obtain ⟨rfl, hafter⟩ := Prod.mk.inj (Option.some.inj hlater)
        obtain ⟨rfl, rfl⟩ := Prod.mk.inj hafter
        exact ⟨used, rfl, .inr ⟨0, n, out.2, rfl, hend, rfl⟩⟩

/-- **An import can be begun** when nothing is awaited. -/
theorem beginFileImport_idle (filters : UInt32) (fd : ℕ) (hd : d.importFd = none)
    (hresponse : d.response = []) :
    ∃ d', beginFileImport sys JUICE_IOS_API_VERSION filters (.made fd) d
        = ((.success, JUICE_IOS_STATUS_PENDING, nextRequestId sys d),
          some (importRequest (nextRequestId sys d) filters).wire, d')
      ∧ d'.Waiting (nextRequestId sys d) := by
  unfold beginFileImport
  rw [if_neg (fun hne => hne rfl), if_neg (by rw [hd]; exact Bool.false_ne_true)]
  refine ⟨_, rfl, rfl, rfl, ?_⟩
  show d.response.length < messageSize
  rw [hresponse]
  decide

end Calls

end Juice.Control
