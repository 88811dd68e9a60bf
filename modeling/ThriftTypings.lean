import ThriftTypings.Text.Utf8
import ThriftTypings.Idl.Session
import ThriftTypings.Idl.Record
import ThriftTypings.Idl.Walk
import ThriftTypings.Path.Source
import ThriftTypings.TypeScript.Session
import ThriftTypings.Watch.Watcher
import ThriftTypings.Main
import ThriftTypings.Proofs.Build.Accounting
import ThriftTypings.Proofs.Build.Closure
import ThriftTypings.Proofs.TypeScript.Skeleton
import ThriftTypings.Proofs.Idl.RoundTrip
import ThriftTypings.Proofs.Idl.Collected
import ThriftTypings.Proofs.TypeScript.Emission
import ThriftTypings.Proofs.Build.Mirror
import ThriftTypings.Proofs.TypeScript.Tokens
import ThriftTypings.Proofs.TypeScript.Grammar
import ThriftTypings.Proofs.TypeScript.Spelling
import ThriftTypings.Proofs.TypeScript.Readback
import ThriftTypings.Proofs.Build.Guard
import ThriftTypings.Proofs.Build.Imports
import ThriftTypings.Proofs.Idl.Spaced
import ThriftTypings.Proofs.Idl.Locality
import ThriftTypings.Proofs.Idl.Viability
import ThriftTypings.Proofs.Idl.Concatenation
import ThriftTypings.Proofs.Build.Access
import ThriftTypings.Proofs.Build.Confinement
import ThriftTypings.Proofs.FileTree.Growth
import ThriftTypings.Proofs.FileTree.Outside
import ThriftTypings.Proofs.FileTree.Opened
import ThriftTypings.Proofs.Build.Frame
import ThriftTypings.Proofs.Build.Rebuild
import ThriftTypings.Proofs.Idl.Reloading
import ThriftTypings.Proofs.TypeScript.Rebuilding
import ThriftTypings.Proofs.Idl.Reuse
import ThriftTypings.Proofs.Watch.Delivery
import ThriftTypings.Proofs.Idl.TypeGrammar
import ThriftTypings.Proofs.Idl.Alternatives
import ThriftTypings.Proofs.Path.Relative
import ThriftTypings.Proofs.Watch.Filtering
import ThriftTypings.Proofs.TypeScript.Declared
import ThriftTypings.Proofs.TypeScript.Tidiness
import ThriftTypings.Proofs.Text.Decimal
import ThriftTypings.Proofs.TypeScript.Values
import ThriftTypings.Proofs.TypeScript.Bindings
import ThriftTypings.Proofs.TypeScript.References
import ThriftTypings.Proofs.Idl.Contexts
import ThriftTypings.Proofs.Idl.LineEnds
import ThriftTypings.Proofs.Idl.Progress
import ThriftTypings.Proofs.TypeScript.Names
import ThriftTypings.Proofs.Path.Keys
