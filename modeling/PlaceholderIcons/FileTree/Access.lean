import PlaceholderIcons.FileTree.Basic

/-!
The three operations through which the program reaches files. The program is
written once over them; a file tree as state and the operating system both
provide them.
-/

namespace PlaceholderIcons

class FileAccess (m : Type → Type) where
  /-- The content of a file. -/
  read : Bytes → m (Except FileFault Bytes)
  /-- Creates or replaces a file. -/
  write : Bytes → Bytes → m (Except FileFault Unit)
  /-- Kind and size of an entry. -/
  status : Bytes → m (Except FileFault Status)

/-- Programs on a file tree. -/
abbrev FileTreeM := StateM FileTree

instance : FileAccess FileTreeM where
  read path := fun tree => (tree.read path, tree)
  write path content := fun tree => tree.write path content
  status path := fun tree => (tree.status path, tree)

end PlaceholderIcons
