import Sv6Fs.Layout
import Sv6Fs.BufCache
import Sv6Fs.Inode
import Sv6Fs.Itrunc
import Sv6Fs.ReadWrite
import Sv6Fs.Sys
import Sv6Fs.Bmap
import Sv6Fs.Owned
import Sv6Fs.Contents
import Sv6Fs.Files
import Sv6Fs.FileModel
import Sv6Fs.Dir
import Sv6Fs.Journal
import Sv6Fs.Latch
import Sv6Fs.Ahci
import Sv6Fs.InodeCache
import Sv6Fs.DirScan
import Sv6Fs.DirInit
import Sv6Fs.DirRoundTrip
import Sv6Fs.LinkCount
import Sv6Fs.Namei
import Sv6Fs.Bitmap
import Sv6Fs.Ialloc
import Sv6Fs.Mapped
import Sv6Fs.BlockMap
import Sv6Fs.Shrink
import Sv6Fs.Truncate
import Sv6Fs.TruncateFiles
import Sv6Fs.DropBufcache
import Sv6Fs.DenseWrite
import Sv6Fs.AhciCommand
import Sv6Fs.AhciPort
import Sv6Fs.BackedFile
import Sv6Fs.WriteLog
