import Tansu.Primitive
import Tansu.Codec
import Tansu.Record
import Tansu.Crc
import Tansu.Inflated
import Tansu.Deflated
import Tansu.Compaction
import Tansu.Log
import Tansu.VarRep
