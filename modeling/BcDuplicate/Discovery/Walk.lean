import BcDuplicate.Discovery

/-!
# BcDuplicate.Discovery.Walk

The serial walk (`src/discovery/bc_duplicate_discovery_walk.c`).

One set of visited directories serves all the inputs of a run.  A directory
is recursed into with one unit of fuel; `none` is a walk that runs out of it.
The Boolean results of the helpers are left out, since no caller looks at
them: what a helper does is in the state it leaves.
-/

namespace BcDuplicate

/-- `bc_duplicate_walk_state_t`, the directories `open` and `openat` returned
a descriptor for so far, and how often the signal handler was polled and
memory was requested. -/
structure WalkState where
  entries : List OwnedEntry
  errors : List DiscoveryError
  visitedDirectories : List Identity
  rootDeviceId : Option Nat
  openedDirectories : List Identity
  polls : Nat
  requests : Nat
deriving DecidableEq, Repr

namespace WalkState

def initial : WalkState := ⟨[], [], [], none, [], 0, 0⟩

/-- `bc_runtime_error_collector_append` -/
def fail (s : WalkState) (path : Bytes) (stage : String) (errno : Errno) : WalkState :=
  { s with errors := s.errors ++ [⟨path, stage, errno⟩] }

def polled (s : WalkState) : WalkState := { s with polls := s.polls + 1 }

def requested (s : WalkState) : WalkState := { s with requests := s.requests + 1 }

/-- The device of the first directory among the inputs is kept. -/
def rooted (s : WalkState) (root : Identity) : WalkState :=
  { s with rootDeviceId := s.rootDeviceId.or (some root.deviceId) }

/-- `bc_io_file_inode_set_insert` of a directory that is not present yet. -/
def inserted (s : WalkState) (directory : Identity) : WalkState :=
  { s with visitedDirectories := directory :: s.visitedDirectories }

def opened (s : WalkState) (directory : Identity) : WalkState :=
  { s with openedDirectories := s.openedDirectories ++ [directory] }

end WalkState

section Walk

variable (env : DiscoveryEnvironment)

/-- `bc_duplicate_walk_append_entry` -/
def walkAppendEntry (s : WalkState) (absolutePath : Bytes) (fileSize : Nat) (identity : Identity) :
    WalkState :=
  if fileSize < env.options.minimumFileSize then s
  else if env.allocates s.requests = false then
    s.requested.fail absolutePath "allocate" .ENOMEM
  else if env.allocates s.requested.requests = false then
    s.requested.requested.fail absolutePath "enqueue" .ENOMEM
  else
    { s.requested.requested with
      entries := s.entries ++
        [⟨.discovered absolutePath fileSize identity.deviceId identity.inodeNumber, .main⟩] }

/-- `bc_duplicate_walk_descend_child`; `walk` is the walk of a directory that
was opened, with its `directory_path` and the front of it that names are joined
to, here all of it.  The caller saw a directory: that the second `fstatat` reports
something else, which the `O_DIRECTORY` open then refuses, does not happen in
a file system at rest. -/
def walkDescendChild (walk : Identity → Bytes → Bytes → WalkState → Option WalkState)
    (parent : Identity) (childName childPath : Bytes) (s : WalkState) : Option WalkState :=
  match (env.fs.link parent childName).stat env.options.followSymlinks with
  | .error errno => some (s.fail childPath "stat" errno)
  | .ok (.object (.directory child)) =>
      if env.options.oneFileSystem ∧ s.rootDeviceId.any (child.deviceId ≠ ·) then some s
      else if env.allocates s.requests = false then
        some (s.requested.fail childPath "dedup" .ENOMEM)
      else if child ∈ s.visitedDirectories then some s.requested
      else
        let s := s.requested.inserted child
        if pathIsPseudoFilesystem env.fs childPath = some true then some s
        else
          match env.fs.openError child with
          | some errno => some (s.fail childPath "open" errno)
          | none => walk child childPath childPath (s.opened child)
  | .ok _ => some (s.fail childPath "open" .ENOTDIR)

/-- `bc_duplicate_walk_handle_entry`; `joinedPath` is `directory_path` up to
`directory_path_length`. -/
def walkHandleEntry (walk : Identity → Bytes → Bytes → WalkState → Option WalkState)
    (directory : Identity) (directoryPath joinedPath entryName : Bytes) (s : WalkState) :
    Option WalkState :=
  if env.options.includeHidden = false ∧ entryName.head? = some 46 then some s
  else
    match env.pathJoin joinedPath entryName with
    | none => some (s.fail directoryPath "path-too-long" .ENAMETOOLONG)
    | some childPath =>
        match (env.fs.link directory entryName).stat env.options.followSymlinks with
        | .error errno => some (s.fail childPath "stat" errno)
        | .ok (.object (.regular identity fileSize)) =>
            if filterAcceptsFile env.fnmatch env.filter entryName then
              some (walkAppendEntry env s childPath fileSize identity)
            else some s
        | .ok (.object (.directory _)) =>
            if filterAcceptsDirectory env.fnmatch env.filter entryName then
              walkDescendChild env walk directory entryName childPath s
            else some s
        | .ok _ => some s

/-- The `readdir` loop over the names that are left. -/
def walkNames (walk : Identity → Bytes → Bytes → WalkState → Option WalkState)
    (directory : Identity) (directoryPath joinedPath : Bytes) :
    List Bytes → WalkState → Option WalkState
  | [], s =>
      match env.fs.readdirError directory with
      | some errno => some (s.fail directoryPath "readdir" errno)
      | none => some s
  | name :: names, s =>
      if env.shouldStop s.polls then some s.polled
      else if isDotEntry name then walkNames walk directory directoryPath joinedPath names s.polled
      else
        (walkHandleEntry env walk directory directoryPath joinedPath name s.polled).bind
          (walkNames walk directory directoryPath joinedPath names)

/-- `bc_duplicate_walk_directory` -/
def walkDirectory : Nat → Identity → Bytes → Bytes → WalkState → Option WalkState
  | 0, _, _, _, _ => none
  | fuel + 1, directory, directoryPath, joinedPath, s =>
      match env.fs.dupError directory with
      | some errno => some (s.fail directoryPath "dup" errno)
      | none =>
          match env.fs.fdopendirError directory with
          | some errno => some (s.fail directoryPath "fdopendir" errno)
          | none =>
              walkNames env (walkDirectory fuel) directory directoryPath joinedPath
                (env.fs.listing directory) s

/-- `bc_duplicate_walk_process_input_path` -/
def walkProcessInputPath (fuel : Nat) (s : WalkState) (inputPath : Bytes) : Option WalkState :=
  match env.fs.statPath env.options.followSymlinks inputPath with
  | .error errno => some (s.fail inputPath "stat" errno)
  | .ok .symbolicLink => some (s.fail inputPath "skip-symlink" .ELOOP)
  | .ok (.object (.regular identity fileSize)) =>
      some (walkAppendEntry env s inputPath fileSize identity)
  | .ok (.object (.directory identity)) =>
      if pathIsPseudoFilesystem env.fs inputPath = some true then some s
      else
        let s := s.rooted identity
        if env.allocates s.requests = false then
          some (s.requested.fail inputPath "dedup" .ENOMEM)
        else if identity ∈ s.visitedDirectories then some s.requested
        else
          let s := s.requested.inserted identity
          match env.fs.openError identity with
          | some errno => some (s.fail inputPath "open" errno)
          | none =>
              walkDirectory env fuel identity inputPath (trimTrailingSlashes inputPath)
                (s.opened identity)
  | .ok (.object .other) => some (s.fail inputPath "skip-other" .EINVAL)

/-- `bc_duplicate_walk_expand_glob`: the pattern itself, when it is all `glob`
returns, is no match. -/
def walkExpandGlob (fuel : Nat) (s : WalkState) (pattern : Bytes) : Option WalkState :=
  match env.glob pattern with
  | none => some (s.fail pattern "glob" .EINVAL)
  | some matched =>
      if matched = [pattern] ∧ globContainsMetacharacter pattern then
        some (s.fail pattern "glob-no-match" .ENOENT)
      else matched.foldlM (walkProcessInputPath env fuel) s

/-- The loop over the inputs that are left. -/
def walkInputs (fuel : Nat) : List Bytes → WalkState → Option WalkState
  | [], s => some s
  | inputPath :: inputs, s =>
      if env.shouldStop s.polls then some s.polled
      else if globContainsMetacharacter inputPath then
        (walkExpandGlob env fuel s.polled inputPath).bind (walkInputs fuel inputs)
      else
        (walkProcessInputPath env fuel s.polled inputPath).bind (walkInputs fuel inputs)

/-- `bc_duplicate_discovery_expand` -/
def discoveryExpand (fuel : Nat) (inputPaths : List Bytes) : Option DiscoveryResult :=
  if env.allocates 0 = false then some ⟨false, [], [], []⟩
  else
    (walkInputs env fuel inputPaths { WalkState.initial with requests := 1 }).map fun s =>
      ⟨true, s.entries, s.errors, []⟩

end Walk

end BcDuplicate
