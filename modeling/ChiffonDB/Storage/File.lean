import ChiffonDB.Storage.PageCache
import ChiffonDB.Storage.Wal

/-!
# The database file

`StorageBackend` and `DatabaseFile` of `storage/file.rs`: the file backend reads through the
cache, the log and the main file and writes to the log; the memory backend is one byte vector.
Every call returns its result and the state it leaves, also on an error.

`DatabaseFile.appendPage` is `none` when the page count overflows a `u32` (checked arithmetic).
-/

set_option autoImplicit false

namespace ChiffonDB

open Bytes ByteFile

def DEFAULT_MAX_MEMORY_BYTES : Nat := 4 * 1024 * 1024

structure OpenOptions where
  maxMemoryBytes : Nat

/-- `OpenOptions::cache_capacity`. -/
def OpenOptions.cacheCapacity (opts : OpenOptions) : Nat := max (opts.maxMemoryBytes / PAGE_SIZE) 1

inductive StorageBackend where
  | file (main : ByteFile) (wal : WalFile) (cache : PageCache)
  | memory (data : List UInt8)

namespace StorageBackend

/-- `file.seek(page_id * PAGE_SIZE); file.read_exact(&mut buf)`. -/
def readMain (main : ByteFile) (pageId : UInt32) : Except GraphError PageData :=
  match (readExact main (pageId.toNat * PAGE_SIZE) PAGE_SIZE).bind PageData.ofBytes? with
  | none => .error .io
  | some buf => .ok buf

/-- The uncached read: the log, then the main file. -/
def readThrough (main : ByteFile) (wal : WalFile) (pageId : UInt32) : Except GraphError PageData :=
  match wal.read pageId with
  | .error e => .error e
  | .ok (some fromWal) => .ok fromWal
  | .ok none => readMain main pageId

def readPage (b : StorageBackend) (pageId : UInt32) : Except GraphError PageData × StorageBackend :=
  match b with
  | .file main wal cache =>
    match cache.get pageId with
    | (some cached, cache) => (.ok cached, .file main wal cache)
    | (none, cache) =>
      match readThrough main wal pageId with
      | .error e => (.error e, .file main wal cache)
      | .ok data => (.ok data, .file main wal (cache.put pageId data false).2)
  | .memory data =>
    let offset := pageId.toNat * PAGE_SIZE
    if h : offset + PAGE_SIZE > data.length then (.error (.storageCorrupted pageId), .memory data)
    else (.ok ⟨slice data offset PAGE_SIZE, length_slice (by omega)⟩, .memory data)

def writePage (b : StorageBackend) (pageId : UInt32) (page : PageData) :
    Except GraphError Unit × StorageBackend :=
  match b with
  | .file main wal cache =>
    (.ok (), .file main (wal.write pageId page) (cache.put pageId page false).2)
  | .memory data =>
    let offset := pageId.toNat * PAGE_SIZE
    if offset + PAGE_SIZE > data.length then (.error (.storageCorrupted pageId), .memory data)
    else (.ok (), .memory (splice data offset page.bytes))

def appendPage (b : StorageBackend) (page : PageData) (logicalPageCount : UInt32) : StorageBackend :=
  match b with
  | .file main wal cache =>
    .file main (wal.write logicalPageCount page) (cache.put logicalPageCount page false).2
  | .memory data => .memory (data ++ page.bytes)

/-- `flush`'s pre-allocation loop: `n` empty pages at the end of the file. -/
def extendMain : Nat → ByteFile → ByteFile
  | 0, main => main
  | n + 1, main => extendMain n (writeAll main main.length PageData.zero.bytes)

/-- The pages `flush` adds to the main file before the checkpoint. -/
def missingPages (main : ByteFile) (logicalPageCount : UInt32) : Nat :=
  let filePages := UInt32.ofNat (main.length / PAGE_SIZE)
  if logicalPageCount > filePages then logicalPageCount.toNat - filePages.toNat else 0

def flush (b : StorageBackend) (order : HashOrder) (logicalPageCount : UInt32) :
    Except GraphError Unit × StorageBackend :=
  match b with
  | .file main wal cache =>
    if wal.isEmpty then (.ok (), .file main wal cache)
    else
      let main := extendMain (missingPages main logicalPageCount) main
      match wal.checkpoint order main with
      | (r, wal, main) => (r, .file main wal cache)
  | .memory data => (.ok (), .memory data)

end StorageBackend

/-- `FileSnapshot`. -/
structure FileSnapshot where
  walLen : Nat
  logicalPageCount : UInt32
  header : FileHeader
  memoryData : Option (List UInt8)

structure DatabaseFile where
  backend : StorageBackend
  header : FileHeader
  logicalPageCount : UInt32

/-- What a dropped file-backed database leaves behind. -/
structure Disk where
  main : ByteFile
  wal : ByteFile

namespace DatabaseFile

/-- `create_inner`: a new main file; the log file is created unless one lies there already. -/
def create (walBytes : ByteFile) (opts : OpenOptions) : DatabaseFile where
  backend := .file FileHeader.new.serialize.bytes (WalFile.openWal walBytes)
    (PageCache.new opts.cacheCapacity)
  header := FileHeader.new
  logicalPageCount := 1

def createInMemory : DatabaseFile where
  backend := .memory FileHeader.new.serialize.bytes
  header := FileHeader.new
  logicalPageCount := 1

/-- The first half of `open_inner`: checkpoint the log unless it is empty. -/
def recoverWal (order : HashOrder) (disk : Disk) : Except GraphError (WalFile × ByteFile) :=
  let wal := WalFile.openWal disk.wal
  if wal.isEmpty then .ok (wal, disk.main)
  else
    match wal.checkpoint order disk.main with
    | (.error e, _, _) => .error e
    | (.ok (), wal, main) => .ok (wal, main)

/-- `open_inner`: recover, then read the header and count the pages. -/
def openInner (order : HashOrder) (opts : OpenOptions) (disk : Disk) :
    Except GraphError DatabaseFile :=
  match recoverWal order disk with
  | .error e => .error e
  | .ok (wal, main) =>
    match StorageBackend.readMain main 0 with
    | .error e => .error e
    | .ok buf =>
      match FileHeader.deserialize buf with
      | .error e => .error e
      | .ok header => .ok {
          backend := .file main wal (PageCache.new opts.cacheCapacity)
          header := header
          logicalPageCount := UInt32.ofNat (main.length / PAGE_SIZE) }

/-- The files on disk when the database is dropped; a memory database leaves none. -/
def disk (db : DatabaseFile) : Option Disk :=
  match db.backend with
  | .file main wal _ => some ⟨main, wal.file⟩
  | .memory _ => none

def isInMemory (db : DatabaseFile) : Bool :=
  match db.backend with
  | .file .. => false
  | .memory _ => true

def readPage (db : DatabaseFile) (pageId : UInt32) : Except GraphError PageData × DatabaseFile :=
  match db.backend.readPage pageId with
  | (r, b) => (r, { db with backend := b })

def writePage (db : DatabaseFile) (pageId : UInt32) (data : PageData) :
    Except GraphError Unit × DatabaseFile :=
  match db.backend.writePage pageId data with
  | (r, b) => (r, { db with backend := b })

/-- `append_page`. -/
def appendPage (db : DatabaseFile) (data : PageData) : Option (UInt32 × DatabaseFile) :=
  let pageId := db.logicalPageCount
  if pageId.toNat + 1 < UInt32.size then
    some (pageId, { db with
      backend := db.backend.appendPage data pageId
      logicalPageCount := pageId + 1 })
  else none

def pageCount (db : DatabaseFile) : UInt32 := db.logicalPageCount

def flush (db : DatabaseFile) (order : HashOrder) : Except GraphError Unit × DatabaseFile :=
  match db.backend.flush order db.logicalPageCount with
  | (r, b) => (r, { db with backend := b })

/-- `write_header`. -/
def writeHeader (db : DatabaseFile) : Except GraphError Unit × DatabaseFile :=
  db.writePage 0 db.header.serialize

def snapshot (db : DatabaseFile) : FileSnapshot :=
  match db.backend with
  | .file _ wal _ =>
    { walLen := wal.currentLen, logicalPageCount := db.logicalPageCount, header := db.header,
      memoryData := none }
  | .memory data =>
    { walLen := 0, logicalPageCount := db.logicalPageCount, header := db.header,
      memoryData := some data }

/-- `restore`: drop the cache, cut the log back; or take the saved bytes back. -/
def restore (db : DatabaseFile) (snap : FileSnapshot) : DatabaseFile where
  header := snap.header
  logicalPageCount := snap.logicalPageCount
  backend :=
    match db.backend with
    | .file main wal cache => .file main (wal.truncateTo snap.walLen) cache.clear
    | .memory data => .memory (snap.memoryData.getD data)

end DatabaseFile

end ChiffonDB
