import UtxoConsensus.ActiveChain.Locator

/-!
# The header store

The tree of all headers together with its active chain. Accepting a header does not change the active
chain. Activating the best chain is done in two steps, which other changes may come between: the best
entry is looked up, and then it is made the tip.
-/

namespace UtxoConsensus

structure HeaderStore where
  tree : BlockTree
  chain : ActiveChain

namespace HeaderStore

def empty (params : Option WorkParams) : HeaderStore :=
  ⟨.empty params, .empty⟩

@[inline]
def acceptHeader (s : HeaderStore) (header : BlockHeader) :
    Except BlockError (BlockId × HeaderStore) := do
  let (id, tree) ← s.tree.acceptHeader header
  return (id, { s with tree })

def setTip (s : HeaderStore) (tip : BlockId) : Except BlockError HeaderStore :=
  if (s.tree.get? tip).isSome then .ok { s with chain := s.chain.setTip s.tree (some tip) }
  else .error (.unknownBlock tip)

/-- Makes the entry with the most work the tip of the active chain. -/
def activateBest (s : HeaderStore) : Except BlockError (Option BlockId × HeaderStore) :=
  match s.tree.best with
  | none => .ok (none, s)
  | some best => (s.setTip best).map (some best, ·)

end HeaderStore

end UtxoConsensus
