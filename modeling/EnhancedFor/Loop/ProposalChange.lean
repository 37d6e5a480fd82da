import EnhancedFor.Change.Basic
import EnhancedFor.Loop.Convert

/-!
A proposal as a change that can be performed and undone.
-/

namespace EnhancedFor

def Proposal.toChangeGroup {H : Type} (p : Proposal) : ChangeGroup H :=
  .ofChildren Proposal.label [.text Proposal.label p.change.file p.change.edits]

end EnhancedFor
