/-
This file states what the two formats that outlive a run keep: definitions, which are written before
it, and manifests, which are written by it. Reading is taken apart into the values that a text holds
and what is made of them; only the first of the two rounds numbers, so it is assumed of definitions,
which may hold any, and proved of manifests, which hold none.
-/

import StackSynth.Proofs.Definition.Reading
import StackSynth.Proofs.Manifest.Reading

namespace StackSynth

end StackSynth
