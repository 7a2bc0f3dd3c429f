import UcrashReport.Common.BuildId
import UcrashReport.Common.Files

/-! # The kernel symbol pool

`ensureKernel` returns the tree of a (version, target) pair, fetching and unpacking its tarball when
the tree is absent or does not match the reporting kernel, and keeps the build-id index; `gc` drops
unused snapshot trees and dangling links. The pool lives in a file tree that every operation takes
and returns, also when it fails. What libraries read and unpack is a parameter. The network, the
clock, the disk and the order of directory listings are what a call finds outside and are its
arguments; what is there can be read and removed.
-/

namespace UcrashReport.Symbols

open Rust Rust.Text BuildId

def maxTarballSize : ℕ := 2 * 1024 * 1024 * 1024

/-- How a call fails: with a message of its own, or with an error of a library or the system. -/
inductive Failure
  | bail (message : Text)
  | external
deriving DecidableEq, Repr

structure SymbolPool where
  dir : Location
  releaseUrl : Text
  snapshotUrl : Text

/-! ## The formats and the world outside -/

/-- What a tarball member is for the tar library; links with what they name. -/
inductive MemberKind
  | directory
  | regular (content : Bytes)
  | symlink (linkName : Text)
  | hardLink (linkName : Text)
  | other
deriving DecidableEq, Repr

structure Member where
  path : Text
  kind : MemberKind
deriving DecidableEq, Repr

/-- What compressed tarball data unpacks to, in order. When reading it ends with an error it is not
intact, and the content of its last member may be cut off. -/
structure Archive where
  members : List Member
  intact : Bool

/-- What the pool takes from libraries. `unpackIn` is `Entry::unpack_in` of the tar library, with what
it leaves of a directory and whether it succeeds. -/
structure Formats where
  sha256 : Bytes → Bytes
  unpack : Bytes → Archive
  unpackIn : Location → FileTree Bytes → Member → FileTree Bytes × Bool
  buildIdNote : Bytes → Option Bytes
  bodyText : Bytes → Text
  toLowercase : Text → Text
  toLowercase_ascii : ∀ s, (∀ c ∈ s, c.toNat < 128) → toLowercase s = toAsciiLowercase s

/-- An HTTP response with a success status; `broken` when its body ends with an error. -/
structure Response where
  contentLength : Option ℕ
  chunks : List Bytes
  broken : Bool

/-- What one call finds outside of the pool. `stopAfter` cuts an extraction short after so many
members, as a full disk or the end of the process does; a full disk also refuses to make anything in
some places, and a stamp is written as far as it allows. A listing may come in any order. -/
structure Outside where
  now : ℕ
  localSize : Text → Option ℕ
  localFile : Text → Option Bytes
  get : Text → Option Response
  stopAfter : Option ℕ
  refuses : Location → Bool := fun _ => false
  stampWritten : Written := .whole
  listing : List Text → List Text
  listing_perm : ∀ names, (listing names).Perm names

/-- A directory or a link is made, unless the system refuses. -/
def Outside.allow (outside : Outside) (path : Location) (made : Option (FileTree Bytes)) :
    Option (FileTree Bytes) := if outside.refuses path then none else made

/-! ## Numbers in files -/

/-- `str::parse::<i64>`: an optional sign and digits, in range. -/
def parseI64 (s : Text) : Option ℤ :=
  let (negative, digits) :=
    match s with
    | '-' :: rest => (true, rest)
    | '+' :: rest => (false, rest)
    | _ => (false, s)
  if digits = [] || !digits.all isAsciiDigit then none
  else
    let magnitude : ℤ := digits.foldl (fun n c => 10 * n + (c.toNat - 48 : ℕ)) 0
    let value := if negative then -magnitude else magnitude
    if -2 ^ 63 ≤ value ∧ value < 2 ^ 63 then some value else none

/-- `str::replace`: every copy of the pattern, from left to right. `skip` characters of a copy are
still to be passed. -/
def replaceFrom (pat new : Text) : ℕ → Text → Text
  | _, [] => []
  | skip + 1, _ :: cs => replaceFrom pat new skip cs
  | 0, c :: cs =>
    if pat.isPrefixOf (c :: cs) then new ++ replaceFrom pat new (pat.length - 1) cs
    else c :: replaceFrom pat new 0 cs

def replace (pat new s : Text) : Text := replaceFrom pat new 0 s

/-! ## Build-ids and the index -/

def fileBuildId (formats : Formats) (tree : FileTree Bytes) (path : Location) : Option Text :=
  (tree.read path).bind fun data => (formats.buildIdNote data).map hexEncode

/-- The link of one debug file. The flag says whether the loop goes on; an error ends it. -/
def indexFile (formats : Formats) (outside : Outside) (poolRoot : Location) (tree : FileTree Bytes)
    (file : Location) : FileTree Bytes × Bool :=
  match fileBuildId formats tree file with
  | none => (tree, true)
  | some id =>
    if byteLen id < 4 then (tree, true)
    else
      let linkDir := poolRoot ++ [".build-id".toList, id.take 2]
      match outside.allow linkDir (tree.createDirAll linkDir) with
      | none => (tree, false)
      | some tree =>
        let link := debugLink poolRoot id
        let tree := tree.orUnchanged (tree.removeFile link)
        match tree.canonicalize file with
        | none => (tree, false)
        | some target =>
          match outside.allow link (tree.symlink target link) with
          | none => (tree, false)
          | some tree => (tree, true)

def indexFiles (formats : Formats) (outside : Outside) (poolRoot : Location) :
    FileTree Bytes → List Location → FileTree Bytes
  | tree, [] => tree
  | tree, file :: rest =>
    match indexFile formats outside poolRoot tree file with
    | (tree, true) => indexFiles formats outside poolRoot tree rest
    | (tree, false) => tree

def vmlinuxOf (dest : Location) : Location := dest ++ ["debug".toList, "vmlinux".toList]

def modulesOf (dest : Location) : Location := dest ++ ["debug".toList, "modules".toList]

def stampOf (dest : Location) : Location := dest ++ ["last_used".toList]

/-- Index `debug/vmlinux` and what lies in `debug/modules`. -/
def indexBuildIds (formats : Formats) (outside : Outside) (dest poolRoot : Location)
    (tree : FileTree Bytes) : FileTree Bytes :=
  let modules := outside.listing ((tree.readDir (modulesOf dest)).getD [])
  indexFiles formats outside poolRoot tree
    (vmlinuxOf dest :: modules.map fun name => modulesOf dest ++ [name])

/-! ## Fetching -/

def tooLarge : Failure := .bail "tarball too large".toList

/-- The chunks of a body, up to the size limit. -/
def receive (broken : Bool) : Bytes → List Bytes → Except Failure Bytes
  | data, [] => if broken then .error .external else .ok data
  | data, chunk :: rest =>
    if maxTarballSize < (data ++ chunk).length then .error tooLarge
    else receive broken (data ++ chunk) rest

def download (outside : Outside) (url : Text) : Except Failure Bytes :=
  match "file://".toList.isPrefixOf? url with
  | some path =>
    let unreadable : Failure := .bail ("reading ".toList ++ path)
    match outside.localSize path with
    | none => .error unreadable
    | some size =>
      if maxTarballSize < size then .error tooLarge
      else
        match outside.localFile path with
        | none => .error unreadable
        | some data => .ok data
  | none =>
    match outside.get url with
    | none => .error .external
    | some resp =>
      if maxTarballSize < resp.contentLength.getD 0 then .error tooLarge
      else receive resp.broken [] resp.chunks

/-- The sum of a file in the lines `<sha256> *<filename>`. -/
def findSum (formats : Formats) (file : Text) : List Text → Except Failure Text
  | [] => .error (.bail ("no sha256sums entry for ".toList ++ file))
  | line :: rest =>
    match splitOnce " ".toList line with
    | some (sha, name) =>
      if trimStartMatches "*".toList name = file then .ok (formats.toLowercase (trim sha))
      else findSum formats file rest
    | none => findSum formats file rest

def fetchExpectedSha256 (formats : Formats) (outside : Outside) (url : Text) :
    Except Failure Text :=
  match rsplitOnce "/".toList url with
  | none => .error (.bail "invalid url".toList)
  | some (base, file) =>
    match outside.get (base ++ "/sha256sums".toList) with
    | none => .error .external
    | some resp =>
      if resp.broken then .error .external
      else findSum formats file (lines (formats.bodyText resp.chunks.flatten))

/-! ## Unpacking -/

/-- Only the expected prefix is taken. -/
def hasDebugPrefix (member : Member) : Bool := Path.startsWith "debug".toList member.path

/-- The loop over the members; false when one of them cannot be unpacked. -/
def unpackMembers (formats : Formats) (dest : Location) :
    FileTree Bytes → List Member → FileTree Bytes × Bool
  | tree, [] => (tree, true)
  | tree, member :: rest =>
    if hasDebugPrefix member then
      match formats.unpackIn dest tree member with
      | (tree, true) => unpackMembers formats dest tree rest
      | (tree, false) => (tree, false)
    else unpackMembers formats dest tree rest

/-- Extraction writes in place. The flag says whether it came to the end of the tarball. -/
def extractTarball (formats : Formats) (outside : Outside) (data : Bytes) (dest : Location)
    (tree : FileTree Bytes) : FileTree Bytes × Bool :=
  match outside.allow dest (tree.createDirAll dest) with
  | none => (tree, false)
  | some tree =>
    let archive := formats.unpack data
    match outside.stopAfter with
    | some n => ((unpackMembers formats dest tree (archive.members.take n)).1, false)
    | none =>
      let (tree, whole) := unpackMembers formats dest tree archive.members
      (tree, whole && archive.intact)

namespace SymbolPool

variable (pool : SymbolPool)

/-! ## The cached trees -/

def kernelDir : Location := pool.dir ++ ["kernel".toList]

/-- The tree of a pair. -/
def treeOf (version target : Text) : Location := (pool.kernelDir.join version).join target

def rejects (version target : Text) : Bool :=
  contains "..".toList version || contains "..".toList target

def urlOf (version target : Text) : Text :=
  let template := if version = "SNAPSHOT".toList then pool.snapshotUrl else pool.releaseUrl
  replace "{target}".toList target (replace "{version}".toList version template)

/-- Whether the stamp is written is not looked at. -/
def writeStamp (outside : Outside) (dest : Location) (tree : FileTree Bytes) : FileTree Bytes :=
  tree.orUnchanged ((outside.stampWritten.part (utf8Encode (decimal outside.now))).bind fun content =>
    tree.write (stampOf dest) content)

def finishExtract (formats : Formats) (outside : Outside) (dest : Location)
    (tree : FileTree Bytes) : Except Failure Location × FileTree Bytes :=
  if tree.pathExists (vmlinuxOf dest) then
    (.ok dest, writeStamp outside dest (indexBuildIds formats outside dest pool.dir tree))
  else (.error (.bail "tarball did not contain debug/vmlinux".toList), tree)

def extractAndFinish (formats : Formats) (outside : Outside) (tarball : Bytes) (dest : Location)
    (tree : FileTree Bytes) : Except Failure Location × FileTree Bytes :=
  match extractTarball formats outside tarball dest tree with
  | (tree, true) => pool.finishExtract formats outside dest tree
  | (tree, false) => (.error .external, tree)

/-- The tarball that is extracted: downloaded and, where sums are published for it, verified. -/
def fetchTarball (formats : Formats) (outside : Outside) (version target : Text) :
    Except Failure Bytes :=
  let url := pool.urlOf version target
  match download outside url with
  | .error e => .error e
  | .ok tarball =>
    if startsWith "file://".toList url then .ok tarball
    else
      match fetchExpectedSha256 formats outside url with
      | .error _ => .ok tarball
      | .ok expected =>
        let got := hexEncode (formats.sha256 tarball)
        if got = expected then .ok tarball
        else
          .error (.bail ("kernel-debug.tar.zst checksum mismatch (got ".toList ++ got ++
            ", expected ".toList ++ expected ++ ")".toList))

def fetchKernel (formats : Formats) (outside : Outside) (version target : Text)
    (tree : FileTree Bytes) : Except Failure Location × FileTree Bytes :=
  match pool.fetchTarball formats outside version target with
  | .error e => (.error e, tree)
  | .ok tarball =>
    pool.extractAndFinish formats outside tarball (pool.treeOf version target) tree

/-- A cached tree is stale when its vmlinux has a build-id and it is not the expected one. -/
def isStale (formats : Formats) (tree : FileTree Bytes) (dest : Location)
    (expectedBuildid : Option Text) : Bool :=
  match expectedBuildid, fileBuildId formats tree (vmlinuxOf dest) with
  | some expected, some got => !eqIgnoreAsciiCase got expected
  | _, _ => false

/-- The tree of a pair, fetched on first use and again once when it is stale. -/
def ensureKernel (formats : Formats) (outside : Outside) (version target : Text)
    (expectedBuildid : Option Text) (tree : FileTree Bytes) :
    Except Failure Location × FileTree Bytes :=
  if rejects version target then (.error (.bail "invalid version/target".toList), tree)
  else
    let dest := pool.treeOf version target
    if tree.pathExists (vmlinuxOf dest) then
      if !isStale formats tree dest expectedBuildid then
        (.ok dest, writeStamp outside dest tree)
      else
        pool.fetchKernel formats outside version target (tree.orUnchanged (tree.removeDirAll dest))
    else pool.fetchKernel formats outside version target tree

/-! ## Garbage collection -/

/-- The entries two levels below a directory. -/
def walkTwoLevels (outside : Outside) (tree : FileTree Bytes) (root : Location) :
    List Location :=
  (outside.listing ((tree.readDir root).getD [])).flatMap fun first =>
    (outside.listing ((tree.readDir (root ++ [first])).getD [])).map fun second =>
      root ++ [first, second]

def lastUsed (tree : FileTree Bytes) (dir : Location) : ℤ :=
  ((((tree.read (stampOf dir)).bind utf8Decode).bind fun s => parseI64 (trim s))).getD 0

def gcTree (cutoff : ℤ) (tree : FileTree Bytes) (dir : Location) : FileTree Bytes :=
  if lastUsed tree dir < cutoff then tree.orUnchanged (tree.removeDirAll dir) else tree

def gcLink (tree : FileTree Bytes) (link : Location) : FileTree Bytes :=
  if tree.isSymlink link && !tree.pathExists link then
    tree.orUnchanged (tree.removeFile link)
  else tree

/-- Drop snapshot trees not used for so many weeks, then the links that lead nowhere. -/
def gc (outside : Outside) (retentionWeeks : ℕ) (tree : FileTree Bytes) : FileTree Bytes :=
  let cutoff : ℤ := outside.now - retentionWeeks * 7 * 86400
  let snapshotDir := pool.dir ++ ["kernel".toList, "SNAPSHOT".toList]
  let tree := (walkTwoLevels outside tree snapshotDir).foldl (gcTree cutoff) tree
  (walkTwoLevels outside tree (pool.dir ++ [".build-id".toList])).foldl gcLink tree

end SymbolPool

end UcrashReport.Symbols
