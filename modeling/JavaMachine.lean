import JavaMachine.ClassFile.Encode
import JavaMachine.Machine.ObjectTree
import JavaMachine.Main
import JavaMachine.Proofs.Ancestry
import JavaMachine.Proofs.ArgumentPassing
import JavaMachine.Proofs.ArrayAccess
import JavaMachine.Proofs.ArrayClasses
import JavaMachine.Proofs.ArrayCopying
import JavaMachine.Proofs.ArrayElements
import JavaMachine.Proofs.Assembly
import JavaMachine.Proofs.BoundedStack
import JavaMachine.Proofs.ByteFidelity
import JavaMachine.Proofs.CallResults
import JavaMachine.Proofs.Casts
import JavaMachine.Proofs.Circularity
import JavaMachine.Proofs.ClassConstruction
import JavaMachine.Proofs.ClassFileCodec
import JavaMachine.Proofs.DecodedOperands
import JavaMachine.Proofs.DecodingLocality
import JavaMachine.Proofs.DefaultMethods
import JavaMachine.Proofs.ElementTypes
import JavaMachine.Proofs.ExceptionDispatch
import JavaMachine.Proofs.FieldResolution
import JavaMachine.Proofs.FieldStorage
import JavaMachine.Proofs.FrameDepth
import JavaMachine.Proofs.FrameIsolation
import JavaMachine.Proofs.HeapShape
import JavaMachine.Proofs.InitializedUse
import JavaMachine.Proofs.IntegerInstructions
import JavaMachine.Proofs.Interning
import JavaMachine.Proofs.MethodResolution
import JavaMachine.Proofs.MultiArrays
import JavaMachine.Proofs.Naming
import JavaMachine.Proofs.PoolLoop
import JavaMachine.Proofs.StaticConstants
import JavaMachine.Proofs.Switches
import JavaMachine.Proofs.Truncation
import JavaMachine.Proofs.UncaughtExceptions
import JavaMachine.Proofs.VirtualSelection
