import Juice.Lib.FileTree
import Juice.Zip.Archive
import Juice.Zip.Path
import Juice.Zip.Zlib

/-!
# Extracting an archive

`extractArchiveAtPath:toDirectory:error:` walks the central directory of an
archive and extracts one entry after the other. A file is written as it is
read, stored data in chunks and deflated data in the chunks that `inflate`
returns; a file that fails is closed and unlinked, and what was extracted
before it stays.

The state of the extraction is the file system, the local variables of the
loop, and a record of what was done: the paths that were created and opened,
the bytes that were written, and the records of the central directory that
were read. The platform answers the calls of the extraction – the system
calls, those of Foundation that decode and fold text, and zlib – each call
by its number, so that every one of them can fail on its own. A `write` that
is interrupted is retried, which is no call here.

The model begins with the bytes of the archive.
-/

namespace Juice.Zip

open FileTree Prog

variable {Z : Type}

/-- **What the platform answers.** -/
structure Platform (Z : Type) where
  /-- `initWithBytes:length:encoding:` for UTF-8. -/
  utf8 : List UInt8 → Option (List Char)
  /-- The same for DOS Latin US. -/
  dosLatinUS : List UInt8 → Option (List Char)
  /-- `precomposedStringWithCanonicalMapping` and `lowercaseString`. -/
  folded : List Char → List Char
  strerror : ℕ → String
  createsDirectory : ℕ → Bool
  opens : ℕ → Bool
  /-- How many bytes a `write` takes, or nothing when it fails. -/
  writes : ℕ → Option ℕ
  closes : ℕ → Bool
  unlinks : ℕ → Bool
  /-- `inflateInit2`. -/
  starts : ℕ → Option Z
  /-- `malloc`. -/
  allocates : ℕ → Bool
  zlib : Inflater Z

/-- **The state of an extraction.** -/
structure Extraction where
  fs : Files Name (List UInt8)
  created : List (List Name)
  opened : List (List Name)
  written : ℕ
  calls : ℕ
  seenPaths : List (List Char)
  cursor : ℕ
  extractedTotal : ℕ
  /-- The records of the central directory so far. -/
  walked : List Entry

/-- The state before an extraction. -/
def Extraction.start (fs : Files Name (List UInt8)) : Extraction :=
  ⟨fs, [], [], 0, 0, [], 0, 0, []⟩

/-- A part of the extraction. -/
abbrev ZipM (α : Type) := Prog Extraction Failure α

/-- The number of a call. -/
def call : ZipM ℕ := fun s => (.ok s.calls, { s with calls := s.calls + 1 })

/-- `JZFailErrno`. -/
def jzFailErrno (sys : Platform Z) (k code : ℕ) (operation : String) (path : List Char) : Failure :=
  .zip code ("Could not " ++ operation ++ " " ++ String.ofList (lastPathComponent path) ++ ": "
    ++ sys.strerror k ++ ".")

/-! ## Names -/

/-- `JZEntryName`. -/
def jzEntryName (sys : Platform Z) (bytes : List UInt8) (utf8 : Bool) : Option (List Char) :=
  let name := if utf8 then sys.utf8 bytes else sys.dosLatinUS bytes
  let name := if name = none ∧ !utf8 then sys.utf8 bytes else name
  name.map (List.map (fun c => if c = '\\' then '/' else c))

/-- `hasSuffix:@"/"`. -/
def isDirectory (name : List Char) : Bool := name.getLast? = some '/'

/-- The name and the path of an entry. -/
def entryPath (sys : Platform Z) (bytes : List UInt8) (destination : List Char) (e : Entry) :
    Except Failure (List Char × List Char) := do
  let nameBytes ← readBytes e.nameLength bytes (e.offset + 46)
  match jzEntryName sys nameBytes e.isUtf8 with
  | none => .error (.zip 12 "The ZIP contains an unsafe or invalid path.")
  | some name => match jzSafeDestination destination name with
    | none => .error (.zip 12 "The ZIP contains an unsafe or invalid path.")
    | some path => pure (name, path)

/-! ## Directories and files -/

/-- The directories along a path below `base`, those that are missing. -/
def createDirectories (sys : Platform Z) : List Name → List Name → ZipM Unit
  | _, [] => pure ()
  | base, c :: rest => do
    let node ← gets (fun s => s.fs (base ++ [c]))
    match node with
    | some .dir => createDirectories sys (base ++ [c]) rest
    | some (.file _) => fail .foundation
    | none => do
      let k ← call
      lift (ensure (sys.createsDirectory k) Failure.foundation)
      modify (fun s => { s with
        fs := put s.fs (base ++ [c]) (some .dir)
        created := s.created ++ [base ++ [c]] })
      createDirectories sys (base ++ [c]) rest

/-- `createDirectoryAtPath:withIntermediateDirectories:YES`. -/
def createDirectory (sys : Platform Z) (path : List Name) : ZipM Unit := do
  let k ← call
  lift (ensure (sys.createsDirectory k) Failure.foundation)
  createDirectories sys [] path

/-- `open` with `O_WRONLY | O_CREAT | O_TRUNC`. -/
def openFile (sys : Platform Z) (path : List Char) : ZipM Unit := do
  let k ← call
  let fs ← gets Extraction.fs
  lift (ensure (sys.opens k ∧ fs (pathComponents path) ≠ some .dir
      ∧ fs (pathComponents path).dropLast = some .dir)
    (jzFailErrno sys k 21 "create" path))
  modify (fun s => { s with
    fs := put s.fs (pathComponents path) (some (.file []))
    created := if (s.fs (pathComponents path)).isNone then s.created ++ [pathComponents path]
      else s.created
    opened := s.opened ++ [pathComponents path] })

/-- A file grows. -/
def appendFile (fs : Files Name (List UInt8)) (p : List Name) (chunk : List UInt8) :
    Files Name (List UInt8) :=
  match fs p with
  | some (.file content) => put fs p (some (.file (content ++ chunk)))
  | _ => fs

/-- `JZWriteAll`, for at most so many calls of `write`. -/
def writeLoop (sys : Platform Z) (path : List Char) : ℕ → List UInt8 → ZipM Unit
  | 0, _ => pure ()
  | n + 1, bytes =>
    if bytes = [] then pure ()
    else do
      let k ← call
      match sys.writes k with
      | none => fail (jzFailErrno sys k 21 "write" path)
      | some 0 => fail (.zip 21 ("A write to " ++ String.ofList (lastPathComponent path)
          ++ " made no progress."))
      | some (written + 1) => do
        modify (fun s => { s with
          fs := appendFile s.fs (pathComponents path) (bytes.take (written + 1))
          written := s.written + (bytes.take (written + 1)).length })
        writeLoop sys path n (bytes.drop (written + 1))

/-- `JZWriteAll`. Each `write` that succeeds takes a byte, so there are no
more calls than bytes. -/
def jzWriteAll (sys : Platform Z) (path : List Char) (bytes : List UInt8) : ZipM Unit :=
  writeLoop sys path bytes.length bytes

/-- `unlink`. -/
def unlink (sys : Platform Z) (path : List Char) : ZipM Unit := do
  let k ← call
  modify (fun s =>
    if sys.unlinks k then { s with fs := put s.fs (pathComponents path) none } else s)

/-! ## Data -/

/-- The loop of `JZExtractStored`, for at most so many chunks. -/
def storedLoop (sys : Platform Z) (path : List Char) : ℕ → UInt32 → List UInt8 → ZipM UInt32
  | 0, crc, _ => pure crc
  | n + 1, crc, remaining =>
    if remaining = [] then pure crc
    else do
      jzWriteAll sys path (remaining.take JZIOChunkSize)
      storedLoop sys path n (crc32 crc (remaining.take JZIOChunkSize))
        (remaining.drop JZIOChunkSize)

/-- **`JZExtractStored`.** -/
def jzExtractStored (sys : Platform Z) (path : List Char) (input : List UInt8) : ZipM UInt32 :=
  storedLoop sys path input.length 0 input

/-- An error of `JZExtractDeflated`. -/
def deflateError (before : String) (path : List Char) (after : String) : Failure :=
  .zip 18 (before ++ String.ofList (lastPathComponent path) ++ after)

/-- The loop of `JZExtractDeflated`, for at most `fuel` rounds, and the check
after it. `avail` is the input that the stream has, and `remaining` what
comes after it. -/
def inflateLoop (sys : Platform Z) (path : List Char) (uncompressedSize : ℕ) :
    ℕ → Z → List UInt8 → List UInt8 → ℕ → UInt32 → ZipM UInt32
  | 0, _, _, _, _, _ => fail .diverges
  | fuel + 1, z, avail, remaining, totalOutput, crc => do
    let refill := decide (avail = [] ∧ remaining ≠ [])
    let avail := if refill then remaining.take JZIOChunkSize else avail
    let remaining := if refill then remaining.drop JZIOChunkSize else remaining
    let r := sys.zlib.inflate z avail
    let avail := avail.drop r.consumed
    let totalOutput ← lift (addUnsigned totalOutput r.output.length)
    lift (ensure (r.output = [] ∨ totalOutput ≤ uncompressedSize)
      (deflateError "Decompressed data for " path " exceeds its declared size."))
    jzWriteAll sys path r.output
    match r.status with
    | .streamEnd => do
      lift (ensure (totalOutput = uncompressedSize ∧ remaining = [] ∧ avail = [])
        (deflateError "Compressed data for " path " has inconsistent sizes."))
      pure (crc32 crc r.output)
    | .failed code =>
      fail (deflateError "Could not decompress " path
        (" (zlib status " ++ toString code ++ ")."))
    | .ok => do
      lift (ensure (¬ (r.output = [] ∧ avail = [] ∧ remaining = []))
        (deflateError "Compressed data for " path " ended early."))
      inflateLoop sys path uncompressedSize fuel r.stream avail remaining totalOutput
        (crc32 crc r.output)

/-- **`JZExtractDeflated`.** -/
def jzExtractDeflated (fuel : ℕ) (sys : Platform Z) (path : List Char) (input : List UInt8)
    (uncompressedSize : ℕ) : ZipM UInt32 := do
  let k ← call
  match sys.starts k with
  | none => fail (deflateError "Could not initialize decompression for " path ".")
  | some z => do
    let k ← call
    lift (ensure (sys.allocates k)
      (deflateError "Could not allocate the ZIP stream buffer for " path "."))
    inflateLoop sys path uncompressedSize fuel z [] input 0 0

/-- The data of an entry goes to its file. -/
def extractData (fuel : ℕ) (sys : Platform Z) (bytes : List UInt8) (path : List Char) (e : Entry)
    (dataOffset : ℕ) : ZipM UInt32 :=
  if e.method = 0 then do
    let input ← lift (readBytes e.uncompressedSize bytes dataOffset)
    jzExtractStored sys path input
  else do
    let input ← lift (readBytes e.compressedSize bytes dataOffset)
    jzExtractDeflated fuel sys path input e.uncompressedSize

/-- A file is closed after `result`, and unlinked unless all is well. -/
def closeFile (sys : Platform Z) (name path : List Char) (expectedCRC : ℕ) :
    Except Failure UInt32 → ZipM Unit
  | .error .undefined => fail .undefined
  | .error .diverges => fail .diverges
  | .error e => do
    let _ ← call
    unlink sys path
    fail e
  | .ok actualCRC => do
    let k ← call
    if sys.closes k = false then do
      unlink sys path
      fail (jzFailErrno sys k 21 "close" path)
    else if actualCRC.toNat ≠ expectedCRC then do
      unlink sys path
      fail (.zip 19 ("Checksum verification failed for " ++ String.ofList name ++ "."))
    else pure ()

/-- A file of an archive is extracted. -/
def extractFile (fuel : ℕ) (sys : Platform Z) (bytes : List UInt8) (name path : List Char)
    (e : Entry) (dataOffset : ℕ) : ZipM Unit := do
  createDirectory sys (pathComponents path).dropLast
  openFile sys path
  let extracted ← attempt (extractData fuel sys bytes path e dataOffset)
  closeFile sys name path e.expectedCRC extracted

/-! ## Entries -/

/-- What is extracted at most: 4 GiB. -/
def extractionLimit : ℕ := 4 * 1024 * 1024 * 1024

/-- The key of a path is new. -/
def markPath (sys : Platform Z) (name path : List Char) : ZipM Unit := do
  let seen ← gets Extraction.seenPaths
  lift (ensure (jzCollisionKey sys.folded path ∉ seen)
    (Failure.zip 12 ("The ZIP contains duplicate or case-colliding path " ++ String.ofList name
      ++ ".")))
  modify (fun s => { s with seenPaths := jzCollisionKey sys.folded path :: s.seenPaths })

/-- The declared size of a file is counted. -/
def countSize (e : Entry) : ZipM Unit := do
  let total ← gets Extraction.extractedTotal
  let total ← lift (addUnsigned total e.uncompressedSize)
  modify (fun s => { s with extractedTotal := total })
  lift (ensure (total ≤ extractionLimit)
    (Failure.zip 13 "The extracted ZIP would exceed Juice's 4 GiB safety limit."))

/-- The cursor moves to the next record. -/
def advance (e : Entry) : ZipM Unit := do
  let cursor ← gets Extraction.cursor
  let next ← lift (addUnsigned cursor e.size)
  modify (fun s => { s with cursor := next })

/-- The directory or the file of an entry. -/
def deliver (fuel : ℕ) (sys : Platform Z) (bytes : List UInt8) (centralOffset : ℕ)
    (name path : List Char) (e : Entry) : ZipM Unit :=
  if isDirectory name then do
    lift (ensure (e.compressedSize = 0 ∧ e.uncompressedSize = 0)
      (Failure.zip 12 "A ZIP directory entry unexpectedly contains file data."))
    createDirectory sys (pathComponents path)
  else do
    countSize e
    let dataOffset ← lift (localAt bytes centralOffset e)
    extractFile fuel sys bytes name path e dataOffset

/-- **An entry is extracted.** -/
def extractEntry (fuel : ℕ) (sys : Platform Z) (bytes : List UInt8) (destination : List Char)
    (centralOffset : ℕ) : ZipM Unit := do
  let cursor ← gets Extraction.cursor
  let e ← lift (centralAt bytes cursor)
  modify (fun s => { s with walked := s.walked ++ [e] })
  let named ← lift (entryPath sys bytes destination e)
  markPath sys named.1 named.2
  deliver fuel sys bytes centralOffset named.1 named.2 e
  advance e

/-- The loop over the entries. -/
def extractEntries (fuel : ℕ) (sys : Platform Z) (bytes : List UInt8) (destination : List Char)
    (centralOffset : ℕ) : ℕ → ZipM Unit
  | 0 => pure ()
  | n + 1 => do
    extractEntry fuel sys bytes destination centralOffset
    extractEntries fuel sys bytes destination centralOffset n

/-- **`extractArchiveAtPath:toDirectory:error:`**, from the bytes of the
archive on. -/
def extractArchive (fuel : ℕ) (sys : Platform Z) (bytes : List UInt8) (destination : List Char) :
    ZipM Unit := do
  let eocd ← lift (endRecord bytes)
  createDirectory sys (resolved destination)
  modify (fun s => { s with cursor := eocd.centralOffset })
  extractEntries fuel sys bytes destination eocd.centralOffset eocd.entryCount
  let cursor ← gets Extraction.cursor
  let centralEnd ← lift (addUnsigned eocd.centralOffset eocd.centralSize)
  lift (ensure (cursor = centralEnd)
    (Failure.zip 20 "The ZIP central directory size is inconsistent."))

end Juice.Zip
